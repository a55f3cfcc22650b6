import TigerDuck.Links.Checks
import TigerDuck.Relational.LastWriter

/-!
# What a link's row says

A link's last check and its alert, in whatever order the edits and the checks of all links run. A
check counts exactly if nobody edited its link between its two reads, provided the clock has moved
on from one edit of a link to the next. Of the checks that count, the row shows the one that started
last since the link was last made due at once, and its alert is failing exactly where that check
failed and the link has not been turned off or on since.

- `CheckInv`, `LinkInv`, `Inv`: what holds of a check under way, of a row, and of every state.
- `row_shows`: what the columns of a link say of what has happened to it.
-/

namespace TigerDuck.Links

open Relational Transition LastWriter

/-- The link an event is of. -/
def Event.link : Event → LinkName
  | .edited name _ _ => name
  | .checked name _ => name
  | .discarded name _ => name

variable {lib : Library} {allowedHosts : List String} {db db' : Db} {log : List Event} {e : Event}
  {name : LinkName} {link : Link} {check : Check} {labels : List Label}

/-- What one event adds to a link's verdicts. -/
def Event.verdict (name : LinkName) (r t : Nat) : Event → List ((Nat ×ₗ Time) × Verdict)
  | .checked name' check => if name' = name then [(toLex (r, check.started), ⟨check, t⟩)] else []
  | _ => []

theorem verdicts_cons (r t : Nat) :
    verdicts name r t (e :: log) =
      e.verdict name r t ++ verdicts name (r + (e.isReset name).toNat) (t + (e.isToggle name).toNat) log := by
  cases e with
  | checked name' check =>
    simp only [verdicts, Event.verdict]
    split <;> rfl
  | edited => rfl
  | discarded => rfl

theorem countP_cons (p : Event → Bool) : (e :: log).countP p = (p e).toNat + log.countP p := by
  rw [List.countP_cons]
  cases p e with
  | true => exact Nat.add_comm ..
  | false => exact (Nat.zero_add _).symm

/-- By induction on the log, which a step adds to at its end. -/
theorem verdicts_snoc (r t : Nat) :
    verdicts name r t (log ++ [e]) =
      verdicts name r t log ++ e.verdict name (r + resets name log) (t + toggles name log) := by
  induction log generalizing r t with
  | nil =>
    rw [List.nil_append, verdicts_cons]
    exact List.append_nil _
  | cons first log ih =>
    rw [List.cons_append, verdicts_cons, verdicts_cons, ih, List.append_assoc, resets, resets, toggles,
      toggles, countP_cons, countP_cons, Nat.add_assoc, Nat.add_assoc]

theorem resets_snoc : resets name (log ++ [e]) = resets name log + (e.isReset name).toNat := by
  rw [resets, List.countP_append, countP_cons]
  rfl

theorem toggles_snoc : toggles name (log ++ [e]) = toggles name log + (e.isToggle name).toNat := by
  rw [toggles, List.countP_append, countP_cons]
  rfl

/-! ### Rows -/

/-- The columns show a check, which is the latest under its stamp. -/
structure Shows (log : List Event) (name : LinkName) (link : Link) (period : Nat) (verdict : Verdict) :
    Prop where
  latest : Latest (verdicts name 0 0 log) (toLex (period, verdict.check.started), verdict)
  period_le : period ≤ resets name log
  toggles_le : verdict.toggles ≤ toggles name log
  ok : link.lastCheckOk = some verdict.check.result.ok
  detail : link.lastCheckDetail = some verdict.check.result.detail
  /-- The check's start, unless the link has been made due at once since. -/
  startedAt : link.lastCheckAt = if period = resets name log then some verdict.check.started else none
  current : period = resets name log →
    verdict.check.targetUrl = link.targetUrl ∧ verdict.check.expectations = link.expectations
  alert : link.alertState = .failing ↔
    verdict.check.result.ok = false ∧ verdict.toggles = toggles name log

/-- A link no check has counted for. -/
structure Unchecked (log : List Event) (name : LinkName) (link : Link) : Prop where
  verdicts : verdicts name 0 0 log = []
  at_eq : link.lastCheckAt = none
  ok : link.lastCheckOk = none
  detail : link.lastCheckDetail = none
  alert : link.alertState = .ok

/-- What holds of a row. -/
structure LinkInv (lib : Library) (allowedHosts : List String) (log : List Event) (name : LinkName)
    (link : Link) : Prop where
  target : ∃ parts host, IsTarget lib allowedHosts link.targetUrl parts host
  rules : ∀ rule ∈ link.expectations, rule.isValid = true
  shows : Unchecked log name link ∨ ∃ period verdict, Shows log name link period verdict
  /-- A failing link's alert names a check that failed. -/
  alerts : link.alertState = .failing → ∃ check : Checked, .checked name check ∈ log ∧
    check.result.ok = false ∧ link.alertDetail = some check.result.detail

/-- Nobody has edited the link since. -/
def Unedited (log : List Event) (name : LinkName) (readAt : Nat) : Prop :=
  ∀ e ∈ log.drop readAt, e.isEdit name = false

/-- What holds of a check under way. -/
structure CheckInv (db : Db) (check : Check) : Prop where
  readAt : check.readAt ≤ db.log.length
  link : ∃ link, db.links.get check.name = some link ∧ check.updatedAt ≤ link.updatedAt ∧
    (check.updatedAt = link.updatedAt → Unedited db.log check.name check.readAt) ∧
    (Unedited db.log check.name check.readAt → check.targetUrl = link.targetUrl ∧
      check.expectations = link.expectations ∧ check.updatedAt = link.updatedAt)

/-- A check counted exactly if nobody edited its link between its two reads. -/
structure LogInv (log : List Event) : Prop where
  checked : ∀ before after name (check : Checked), log = before ++ .checked name check :: after →
    check.readAt ≤ before.length ∧ Unedited before name check.readAt
  discarded : ∀ before after name readAt, log = before ++ .discarded name readAt :: after →
    ¬Unedited before name readAt

/-- What holds of every state that can be reached. -/
structure Inv (lib : Library) (allowedHosts : List String) (db : Db) : Prop where
  links : ∀ name link, db.links.get name = some link → LinkInv lib allowedHosts db.log name link
  checks : ∀ c check, db.checks c = some check → CheckInv db check
  log : LogInv db.log
  named : ∀ e ∈ db.log, (db.links.get e.link).isSome

/-- An edit comes after the link's last one. -/
def ClockMoves (db : Db) : Label → Prop
  | .update name _ _ now => ∀ link ∈ db.links.get name, link.updatedAt < now
  | _ => True

instance (db : Db) : (l : Label) → Decidable (ClockMoves db l)
  | .update name _ _ now =>
    inferInstanceAs (Decidable (∀ link ∈ db.links.get name, link.updatedAt < now))
  | .create .. | .begin .. | .start .. | .finish .. | .drop _ => isTrue trivial

/-! ### The log -/

theorem Unedited.snoc {readAt : Nat} (h : Unedited log name readAt) (he : e.isEdit name = false) :
    Unedited (log ++ [e]) name readAt := by
  intro e' he'
  rw [List.drop_append] at he'
  rcases List.mem_append.mp he' with hold | hnew
  · exact h e' hold
  · rwa [List.mem_singleton.mp (List.mem_of_mem_drop hnew)]

theorem Unedited.of_snoc {readAt : Nat} (h : Unedited (log ++ [e]) name readAt)
    (hle : readAt ≤ log.length) : Unedited log name readAt ∧ e.isEdit name = false := by
  rw [Unedited, List.drop_append_of_le_length hle] at h
  exact ⟨fun e' he' => h e' (List.mem_append_left _ he'),
    h e (List.mem_append_right _ (List.mem_singleton_self e))⟩

/-- An event is one of the log or the new one. -/
theorem snoc_cases {before after : List Event} {e' : Event} (h : log ++ [e] = before ++ e' :: after) :
    (before = log ∧ e' = e) ∨ ∃ after', log = before ++ e' :: after' := by
  rcases List.eq_nil_or_concat after with rfl | ⟨after', last, rfl⟩
  · obtain ⟨hlog, he⟩ := List.append_inj' h rfl
    exact Or.inl ⟨hlog.symm, (List.singleton_inj.mp he).symm⟩
  · rw [List.concat_eq_append, ← List.cons_append, ← List.append_assoc] at h
    exact Or.inr ⟨after', (List.append_inj' h rfl).1⟩

theorem LogInv.snoc (h : LogInv log)
    (hchecked : ∀ name (check : Checked), e = .checked name check →
      check.readAt ≤ log.length ∧ Unedited log name check.readAt)
    (hdiscarded : ∀ name readAt, e = .discarded name readAt → ¬Unedited log name readAt) :
    LogInv (log ++ [e]) := by
  constructor
  · intro before after name check heq
    rcases snoc_cases heq with ⟨rfl, he⟩ | ⟨after', hlog⟩
    · exact hchecked name check he.symm
    · exact h.checked before after' name check hlog
  · intro before after name readAt heq
    rcases snoc_cases heq with ⟨rfl, he⟩ | ⟨after', hlog⟩
    · exact hdiscarded name readAt he.symm
    · exact h.discarded before after' name readAt hlog

/-! ### What an event does to a row -/

/-- An event that tells nothing new of a link. -/
structure Event.Silent (e : Event) (name : LinkName) : Prop where
  reset : e.isReset name = false
  toggle : e.isToggle name = false
  verdict : ∀ r t, e.verdict name r t = []

theorem Event.silent_of_ne (hne : e.link ≠ name) : e.Silent name := by
  cases e with
  | edited name' resets toggles =>
    have hname : decide (name' = name) = false := decide_eq_false hne
    exact ⟨by rw [isReset, hname, Bool.false_and], by rw [isToggle, hname, Bool.false_and], fun _ _ => rfl⟩
  | checked name' check => exact ⟨rfl, rfl, fun _ _ => if_neg hne⟩
  | discarded => exact ⟨rfl, rfl, fun _ _ => rfl⟩

theorem Event.Silent.snoc (log : List Event) (h : e.Silent name) :
    verdicts name 0 0 (log ++ [e]) = verdicts name 0 0 log ∧
      resets name (log ++ [e]) = resets name log ∧ toggles name (log ++ [e]) = toggles name log := by
  rw [verdicts_snoc, resets_snoc, toggles_snoc, h.verdict, h.reset, h.toggle, List.append_nil]
  exact ⟨rfl, rfl, rfl⟩

theorem LinkInv.silent (h : LinkInv lib allowedHosts log name link) (he : e.Silent name) :
    LinkInv lib allowedHosts (log ++ [e]) name link := by
  obtain ⟨hverdicts, hresets, htoggles⟩ := he.snoc log
  refine ⟨h.target, h.rules, ?_, fun hfailing => ?_⟩
  · rcases h.shows with hnone | ⟨period, verdict, hshows⟩
    · exact Or.inl { hnone with verdicts := hverdicts.trans hnone.verdicts }
    · have hlatest := hshows.latest
      have hperiod := hshows.period_le
      have htoggled := hshows.toggles_le
      have hstarted := hshows.startedAt
      have hcurrent := hshows.current
      have halert := hshows.alert
      rw [← hverdicts] at hlatest
      rw [← hresets] at hperiod hstarted hcurrent
      rw [← htoggles] at htoggled halert
      exact Or.inr ⟨period, verdict, hlatest, hperiod, htoggled, hshows.ok, hshows.detail, hstarted,
        hcurrent, halert⟩
  · obtain ⟨check, hmem, hrest⟩ := h.alerts hfailing
    exact ⟨check, List.mem_append_left _ hmem, hrest⟩

/-- What of an edit a link's checks go by. -/
theorem edit_targets {changes : Changes} (link : Link) (actor : Actor) (now : Time)
    (h : changes.resets = false) :
    (link.edit changes actor now).targetUrl = link.targetUrl ∧
      (link.edit changes actor now).expectations = link.expectations := by
  simp only [Changes.resets, Bool.or_eq_false_iff] at h
  obtain ⟨⟨htarget, hrules⟩, _⟩ := h
  rw [Option.isSome_eq_false_iff, Option.isNone_iff_eq_none] at htarget hrules
  simp only [Link.edit, htarget, hrules]
  exact ⟨rfl, rfl⟩

theorem verdicts_edited (log : List Event) (name : LinkName) (resets toggles : Bool) :
    verdicts name 0 0 (log ++ [.edited name resets toggles]) = verdicts name 0 0 log := by
  rw [verdicts_snoc]
  exact List.append_nil _

theorem resets_edited (log : List Event) (name : LinkName) (reset toggle : Bool) :
    resets name (log ++ [.edited name reset toggle]) = resets name log + reset.toNat := by
  rw [resets_snoc, Event.isReset, decide_eq_true rfl, Bool.true_and]

theorem toggles_edited (log : List Event) (name : LinkName) (reset toggle : Bool) :
    toggles name (log ++ [.edited name reset toggle]) = toggles name log + toggle.toNat := by
  rw [toggles_snoc, Event.isToggle, decide_eq_true rfl, Bool.true_and]

theorem Unchecked.edit {changes : Changes} (actor : Actor) (now : Time) (h : Unchecked log name link) :
    Unchecked (log ++ [.edited name changes.resets changes.enabled.isSome]) name
      (link.edit changes actor now) := by
  refine ⟨(verdicts_edited ..).trans h.verdicts, ?_, h.ok, h.detail, ?_⟩
  · show (if changes.resets then none else link.lastCheckAt) = none
    rw [h.at_eq, ite_self]
  · show (if changes.enabled.isSome then .ok else link.alertState) = .ok
    rw [h.alert, ite_self]

/-- The row goes on showing its check, which is of another period once the link is due at once. -/
theorem Shows.edit {changes : Changes} {period : Nat} {verdict : Verdict} (actor : Actor) (now : Time)
    (h : Shows log name link period verdict) :
    Shows (log ++ [.edited name changes.resets changes.enabled.isSome]) name
      (link.edit changes actor now) period verdict := by
  have hperiod := h.period_le
  have htoggled := h.toggles_le
  refine ⟨?_, ?_, ?_, h.ok, h.detail, ?_, fun heq => ?_, ?_⟩
  · rw [verdicts_edited]
    exact h.latest
  · rw [resets_edited]
    omega
  · rw [toggles_edited]
    omega
  · show (if changes.resets then none else link.lastCheckAt) = _
    rw [resets_edited]
    cases changes.resets with
    | true =>
      have hne : period ≠ resets name log + 1 := by omega
      exact (if_neg hne).symm
    | false => exact h.startedAt
  · rw [resets_edited] at heq
    cases hreset : changes.resets with
    | true =>
      rw [hreset, Bool.toNat_true] at heq
      omega
    | false =>
      -- The target and the rules are those the check was of.
      obtain ⟨hurl, hexpectations⟩ := edit_targets link actor now hreset
      rw [hreset] at heq
      rw [hurl, hexpectations]
      exact h.current heq
  · show (if changes.enabled.isSome then .ok else link.alertState) = .failing ↔ _
    rw [toggles_edited]
    cases changes.enabled.isSome with
    | true =>
      rw [Bool.toNat_true, if_pos rfl]
      constructor
      · intro hok
        cases hok
      · rintro ⟨_, heq⟩
        omega
    | false => exact h.alert

theorem LinkInv.edit {changes : Changes} (actor : Actor) (now : Time)
    (h : LinkInv lib allowedHosts log name link)
    (htarget : ∀ url ∈ changes.targetUrl, ∃ parts host, IsTarget lib allowedHosts url parts host)
    (hrules : ∀ rules ∈ changes.expectations, ∀ rule ∈ rules, rule.isValid = true) :
    LinkInv lib allowedHosts (log ++ [.edited name changes.resets changes.enabled.isSome]) name
      (link.edit changes actor now) := by
  refine ⟨?_, ?_, ?_, fun hfailing => ?_⟩
  · cases hurl : changes.targetUrl with
    | none =>
      simp only [Link.edit, hurl]
      exact h.target
    | some url =>
      simp only [Link.edit, hurl]
      exact htarget url hurl
  · cases hsome : changes.expectations with
    | none =>
      simp only [Link.edit, hsome]
      exact h.rules
    | some rules =>
      simp only [Link.edit, hsome]
      exact hrules rules hsome
  · rcases h.shows with hnone | ⟨period, verdict, hshows⟩
    · exact Or.inl (hnone.edit actor now)
    · exact Or.inr ⟨period, verdict, hshows.edit actor now⟩
  · have hbefore : link.alertState = .failing := by
      have hif : (if changes.enabled.isSome then .ok else link.alertState) = .failing := hfailing
      split at hif
      · cases hif
      · exact hif
    obtain ⟨check, hmem, hrest⟩ := h.alerts hbefore
    exact ⟨check, List.mem_append_left _ hmem, hrest⟩

theorem nextAlertState_failing_iff (current : AlertState) (ok : Bool) :
    (nextAlertState current ok).1 = .failing ↔ ok = false := by
  cases current <;> cases ok <;> decide

/-- A failing check is where a link's alert begins, unless it is on. -/
theorem nextAlertState_change (current : AlertState) :
    (nextAlertState current false).2 = some "failing" ∨ current = .failing := by
  cases current with
  | ok => exact Or.inl rfl
  | failing => exact Or.inr rfl

theorem verdicts_checked (log : List Event) (name : LinkName) (check : Checked) :
    verdicts name 0 0 (log ++ [.checked name check]) = verdicts name 0 0 log ++
      [(toLex (resets name log, check.started), ⟨check, toggles name log⟩)] := by
  rw [verdicts_snoc, Nat.zero_add, Nat.zero_add, Event.verdict, if_pos rfl]

theorem resets_checked (log : List Event) (name : LinkName) (check : Checked) :
    resets name (log ++ [.checked name check]) = resets name log :=
  resets_snoc

theorem toggles_checked (log : List Event) (name : LinkName) (check : Checked) :
    toggles name (log ++ [.checked name check]) = toggles name log :=
  toggles_snoc

/-- While a check that started later is on the row, one that counts changes nothing. -/
theorem Shows.outdated {check : Checked} {period : Nat} {verdict : Verdict}
    (h : Shows log name link period verdict) (hperiod : period = resets name log)
    (hlt : check.started < verdict.check.started) :
    Shows (log ++ [.checked name check]) name link period verdict := by
  have hstamp : toLex (resets name log, check.started) < toLex (period, verdict.check.started) := by
    rw [hperiod, Prod.Lex.toLex_lt_toLex]
    exact Or.inr ⟨rfl, hlt⟩
  refine ⟨?_, ?_, ?_, h.ok, h.detail, ?_, ?_, ?_⟩
  · rw [verdicts_checked]
    exact h.latest.snoc_of_lt hstamp
  · rw [resets_checked]
    exact h.period_le
  · rw [toggles_checked]
    exact h.toggles_le
  · rw [resets_checked]
    exact h.startedAt
  · rw [resets_checked]
    exact h.current
  · rw [toggles_checked]
    exact h.alert

/-- Otherwise the row shows the check that counts. -/
theorem shows_recorded {check : Checked} {row : Link}
    (h : Unchecked log name link ∨ ∃ period verdict, Shows log name link period verdict)
    (hnewer : ∀ started ∈ link.lastCheckAt, started ≤ check.started)
    (hat : row.lastCheckAt = some check.started) (hok : row.lastCheckOk = some check.result.ok)
    (hdetail : row.lastCheckDetail = some check.result.detail)
    (htarget : check.targetUrl = row.targetUrl) (hrules : check.expectations = row.expectations)
    (halert : row.alertState = .failing ↔ check.result.ok = false) :
    Shows (log ++ [.checked name check]) name row (resets name log) ⟨check, toggles name log⟩ := by
  have hlatest : Latest (verdicts name 0 0 (log ++ [.checked name check]))
      (toLex (resets name log, check.started), ⟨check, toggles name log⟩) := by
    rw [verdicts_checked]
    rcases h with hnone | ⟨period, verdict, hshows⟩
    · rw [hnone.verdicts, List.nil_append]
      exact Latest.single _
    · refine hshows.latest.snoc_of_le ?_
      rw [Prod.Lex.toLex_le_toLex]
      rcases hshows.period_le.lt_or_eq with hlt | heq
      · exact Or.inl hlt
      · -- The same period: the row's start is that of the check it shows.
        refine Or.inr ⟨heq, hnewer _ ?_⟩
        rw [hshows.startedAt, if_pos heq]
        rfl
  refine ⟨hlatest, ?_, ?_, hok, hdetail, ?_, fun _ => ⟨htarget, hrules⟩, ?_⟩
  · rw [resets_checked]
  · rw [toggles_checked]
  · rw [resets_checked, if_pos rfl]
    exact hat
  · rw [toggles_checked, halert]
    exact (and_iff_left rfl).symm

theorem LinkInv.record (check : Checked) (h : LinkInv lib allowedHosts log name link)
    (htarget : check.targetUrl = link.targetUrl) (hrules : check.expectations = link.expectations) :
    LinkInv lib allowedHosts (log ++ [.checked name check]) name
      (link.record check.started check.result) := by
  have hold : link.alertState = .failing → ∃ c : Checked, .checked name c ∈ log ++ [.checked name check] ∧
      c.result.ok = false ∧ link.alertDetail = some c.result.detail := fun hfailing => by
    obtain ⟨c, hmem, hrest⟩ := h.alerts hfailing
    exact ⟨c, List.mem_append_left _ hmem, hrest⟩
  unfold Link.record
  split
  next hlater =>
    -- A check that started later is on the row, so the row shows one.
    obtain ⟨started, hstarted, hlt⟩ : ∃ started, link.lastCheckAt = some started ∧
        check.started < started := by
      obtain ⟨started, hstarted, hlt⟩ := (Option.any_eq_true ..).mp hlater
      exact ⟨started, hstarted, of_decide_eq_true hlt⟩
    rcases h.shows with hnone | ⟨period, verdict, hshows⟩
    · rw [hnone.at_eq] at hstarted
      cases hstarted
    · rw [hshows.startedAt] at hstarted
      split at hstarted <;> cases hstarted
      next hperiod =>
        exact ⟨h.target, h.rules, Or.inr ⟨period, verdict, hshows.outdated hperiod hlt⟩, hold⟩
  next hnewer =>
    refine ⟨h.target, h.rules, Or.inr ⟨_, _, shows_recorded h.shows (fun started hstarted => ?_) rfl rfl rfl
      htarget hrules (nextAlertState_failing_iff ..)⟩, fun hfailing => ?_⟩
    · rw [Option.mem_def] at hstarted
      rw [hstarted] at hnewer
      simpa using hnewer
    · have hfailed := (nextAlertState_failing_iff ..).mp hfailing
      show ∃ c : Checked, .checked name c ∈ log ++ [.checked name check] ∧ c.result.ok = false ∧
        (if (nextAlertState link.alertState check.result.ok).2 = some "failing" then
          some check.result.detail else link.alertDetail) = some c.result.detail
      split
      next =>
        exact ⟨check, List.mem_append_right _ (List.mem_singleton_self _), hfailed, rfl⟩
      next hchange =>
        rw [hfailed] at hchange
        exact hold ((nextAlertState_change link.alertState).resolve_left hchange)

/-! ### Checks under way -/

theorem record_keeps (link : Link) (started : Time) (result : CheckResult) :
    (link.record started result).targetUrl = link.targetUrl ∧
      (link.record started result).expectations = link.expectations ∧
      (link.record started result).updatedAt = link.updatedAt := by
  unfold Link.record
  split <;> exact ⟨rfl, rfl, rfl⟩

/-- What is no edit of its link leaves a check as it is. -/
theorem CheckInv.snoc (h : CheckInv db check) (hlog : db'.log = db.log ++ [e])
    (he : e.isEdit check.name = false)
    (hlink : ∀ link, db.links.get check.name = some link → ∃ link', db'.links.get check.name = some link' ∧
      link'.targetUrl = link.targetUrl ∧ link'.expectations = link.expectations ∧
      link'.updatedAt = link.updatedAt) : CheckInv db' check := by
  obtain ⟨link, hget, hle, hsame, hunedited⟩ := h.link
  obtain ⟨link', hget', htarget, hrules, hupdated⟩ := hlink link hget
  refine ⟨?_, link', hget', ?_, fun heq => ?_, fun hsince => ?_⟩
  · rw [hlog, List.length_append]
    exact h.readAt.trans (Nat.le_add_right ..)
  · rwa [hupdated]
  · rw [hupdated] at heq
    rw [hlog]
    exact (hsame heq).snoc he
  · rw [hlog] at hsince
    rw [htarget, hrules, hupdated]
    exact hunedited (hsince.of_snoc h.readAt).1

/-- An edit of its link is later than what a check has read. -/
theorem CheckInv.edited (row : Link) (h : CheckInv db check) (hlog : db'.log = db.log ++ [e])
    (he : e.isEdit check.name = true) (hget : db'.links.get check.name = some row)
    (hlater : ∀ link, db.links.get check.name = some link → link.updatedAt < row.updatedAt) :
    CheckInv db' check := by
  obtain ⟨link, hbefore, hle, _, _⟩ := h.link
  have hlt : check.updatedAt < row.updatedAt := hle.trans_lt (hlater link hbefore)
  refine ⟨?_, row, hget, hlt.le, fun heq => absurd heq hlt.ne, fun hsince => ?_⟩
  · rw [hlog, List.length_append]
    exact h.readAt.trans (Nat.le_add_right ..)
  · rw [hlog] at hsince
    rw [(hsince.of_snoc h.readAt).2] at he
    cases he

/-! ### Steps -/

theorem verdicts_eq_nil (h : ∀ e ∈ log, e.link ≠ name) (r t : Nat) : verdicts name r t log = [] := by
  induction log generalizing r t with
  | nil => rfl
  | cons e log ih =>
    rw [verdicts_cons, (Event.silent_of_ne (h e List.mem_cons_self)).verdict, List.nil_append]
    exact ih (fun e' he' => h e' (List.mem_cons_of_mem _ he')) ..

theorem checkedTarget_ok {url url' : String} (h : checkedTarget lib allowedHosts url = .ok url') :
    ∃ parts host, IsTarget lib allowedHosts url parts host := by
  unfold checkedTarget at h
  split at h <;> cases h
  next htarget => exact (validateTarget_ok htarget).2

/-- What an edit that is accepted does. -/
theorem updateLink_ok {payload : LinkUpdate} {actor : Actor} {now : Time}
    (h : db.updateLink lib allowedHosts name payload actor now = .ok db') :
    db' = db ∨ ∃ link, db.links.get name = some link ∧
      (∀ url ∈ payload.targetUrl, ∃ parts host, IsTarget lib allowedHosts url parts host) ∧
      db' = { db with
        links := db.links.set name (link.edit (payload.changes link) actor now)
        audit := db.audit ++ [.edit actor (payload.changes link).action name (payload.changes link)]
        log := db.log ++
          [.edited name (payload.changes link).resets (payload.changes link).enabled.isSome] } := by
  unfold Db.updateLink at h
  split at h
  · cases h
  next link hget =>
    split at h
    · cases h
    next hnot =>
      simp only at h
      split at h <;> cases h
      · exact Or.inl rfl
      · refine Or.inr ⟨link, hget, fun url hurl => ?_, rfl⟩
        rw [Option.mem_def] at hurl
        cases hchecked : checkedTarget lib allowedHosts url with
        | error error => exact absurd (by rw [hurl, Option.map_some, hchecked]) (hnot error)
        | ok _ => exact checkedTarget_ok hchecked

/-- The rows of an edit's request. -/
theorem changes_mem (payload : LinkUpdate) (link : Link) :
    (∀ url ∈ (payload.changes link).targetUrl, url ∈ payload.targetUrl) ∧
      ∀ rules ∈ (payload.changes link).expectations, rules ∈ payload.expectations :=
  ⟨fun _ h => (Option.mem_filter_iff.mp h).1, fun _ h => (Option.mem_filter_iff.mp h).1⟩

theorem Inv.create {payload : LinkCreate} {actor : Actor} {now : Time} (h : Inv lib allowedHosts db)
    (hfits : payload.fits = true)
    (hcreate : db.createLink lib allowedHosts payload actor now = .ok db') : Inv lib allowedHosts db' := by
  unfold Db.createLink at hcreate
  split at hcreate
  · cases hcreate
  next target htarget =>
    split at hcreate <;> cases hcreate
    next hfree =>
      have hfree : db.links.get payload.name = none := by simpa using hfree
      have hget : ∀ name link, db.links.get name = some link →
          (db.links.set payload.name (payload.row actor now)).get name = some link := by
        intro name link hlink
        rw [Table.get_set, if_neg fun heq => by rw [heq, hfree] at hlink; cases hlink]
        exact hlink
      refine ⟨fun name link hlink => ?_, fun c check hcheck => ?_, h.log, fun e he => ?_⟩
      · rw [Table.get_set] at hlink
        split at hlink
        next heq =>
          obtain rfl := Option.some.inj hlink
          have hrules : payload.expectations.all Rule.isValid = true := by
            simp only [LinkCreate.fits, rulesFit, Bool.and_eq_true] at hfits
            exact hfits.1.2.2
          refine ⟨checkedTarget_ok htarget, fun rule hrule => List.all_eq_true.mp hrules rule hrule,
            Or.inl ⟨verdicts_eq_nil (fun e he heq' => ?_) .., rfl, rfl, rfl, rfl⟩, fun hfailing => ?_⟩
          · -- Nothing has happened to a link that is not there.
            have hsome := h.named e he
            rw [heq', heq, hfree] at hsome
            cases hsome
          · cases hfailing
        next => exact h.links name link hlink
      · have hold := h.checks c check hcheck
        obtain ⟨link, hlink, hrest⟩ := hold.link
        exact ⟨hold.readAt, link, hget _ _ hlink, hrest⟩
      · obtain ⟨link, hlink⟩ := Option.isSome_iff_exists.mp (h.named e he)
        exact Option.isSome_iff_exists.mpr ⟨link, hget _ _ hlink⟩

/-- A row that is written over is there for whatever was there. -/
theorem isSome_get_set {links : Table LinkName Link} {name' : LinkName} {row : Link}
    (h : (links.get name').isSome) : ((links.set name row).get name').isSome := by
  rw [Table.get_set]
  split
  · rfl
  · exact h

/-- One link's row is written over, as one event tells of it. -/
theorem Inv.links_set {row : Link} (h : Inv lib allowedHosts db)
    (hrow : LinkInv lib allowedHosts (db.log ++ [e]) e.link row) (name' : LinkName) (link' : Link)
    (hget : (db.links.set e.link row).get name' = some link') :
    LinkInv lib allowedHosts (db.log ++ [e]) name' link' := by
  rw [Table.get_set] at hget
  split at hget
  next heq =>
    obtain rfl := Option.some.inj hget
    rw [heq]
    exact hrow
  next hne => exact (h.links name' link' hget).silent (Event.silent_of_ne fun heq => hne heq.symm)

theorem Inv.named_set {row : Link} (h : Inv lib allowedHosts db)
    (hsome : (db.links.get e.link).isSome) :
    ∀ e' ∈ db.log ++ [e], ((db.links.set e.link row).get e'.link).isSome := by
  intro e' he'
  rcases List.mem_append.mp he' with he' | he'
  · exact isSome_get_set (h.named e' he')
  · rw [List.mem_singleton.mp he']
    exact isSome_get_set hsome

theorem Inv.update {payload : LinkUpdate} {actor : Actor} {now : Time} (h : Inv lib allowedHosts db)
    (hfits : payload.fits = true) (hmoves : ∀ link ∈ db.links.get name, link.updatedAt < now)
    (hupdate : db.updateLink lib allowedHosts name payload actor now = .ok db') :
    Inv lib allowedHosts db' := by
  rcases updateLink_ok hupdate with rfl | ⟨link, hget, htarget, rfl⟩
  · exact h
  have hrules : ∀ rules ∈ payload.expectations, ∀ rule ∈ rules, rule.isValid = true := by
    intro rules hmem rule hrule
    rw [Option.mem_def] at hmem
    simp only [LinkUpdate.fits, Bool.and_eq_true, hmem, Option.all_some, rulesFit] at hfits
    exact List.all_eq_true.mp hfits.1.2.2 rule hrule
  obtain ⟨hurls, hlists⟩ := changes_mem payload link
  have hedited := (h.links name link hget).edit actor now (fun url hurl => htarget url (hurls url hurl))
    fun rules hmem => hrules rules (hlists rules hmem)
  refine ⟨h.links_set hedited, fun c check hcheck => ?_, ?_, ?_⟩
  · by_cases heq : check.name = name
    · refine (h.checks c check hcheck).edited (link.edit (payload.changes link) actor now) rfl
        (decide_eq_true heq.symm) ?_ fun before hbefore => ?_
      · show (db.links.set name _).get check.name = _
        rw [Table.get_set, if_pos heq]
      · rw [heq] at hbefore
        exact hmoves before hbefore
    · refine (h.checks c check hcheck).snoc rfl (decide_eq_false fun heq' => heq heq'.symm) ?_
      intro before hbefore
      refine ⟨before, ?_, rfl, rfl, rfl⟩
      show (db.links.set name _).get check.name = _
      rw [Table.get_set, if_neg heq]
      exact hbefore
  · exact h.log.snoc (fun _ _ heq => by cases heq) fun _ _ heq => by cases heq
  · exact h.named_set (Option.isSome_iff_exists.mpr ⟨link, hget⟩)

/-- A check that is not under way any more is none of the others. -/
theorem Inv.dropCheck (h : Inv lib allowedHosts db) (c : CheckId) :
    Inv lib allowedHosts (db.dropCheck c) := by
  refine ⟨h.links, fun c' check hcheck => ?_, h.log, h.named⟩
  have hcheck : Function.update db.checks c none c' = some check := hcheck
  rw [Function.update_apply] at hcheck
  split at hcheck
  · cases hcheck
  · have hold := h.checks c' check hcheck
    exact ⟨hold.readAt, hold.link⟩

theorem Inv.setCheck (h : Inv lib allowedHosts db) (c : CheckId) (hcheck : CheckInv db check) :
    Inv lib allowedHosts (db.setCheck c check) := by
  refine ⟨h.links, fun c' check' hcheck' => ?_, h.log, h.named⟩
  have hcheck' : Function.update db.checks c (some check) c' = some check' := hcheck'
  rw [Function.update_apply] at hcheck'
  split at hcheck'
  · obtain rfl := Option.some.inj hcheck'
    exact ⟨hcheck.readAt, hcheck.link⟩
  · have hold := h.checks c' check' hcheck'
    exact ⟨hold.readAt, hold.link⟩

theorem Inv.finishCheck {c : CheckId} {started : Time} {result : CheckResult}
    (h : Inv lib allowedHosts db) (hcheck : db.checks c = some check) :
    Inv lib allowedHosts (db.finishCheck c check started result) := by
  obtain ⟨link, hget, hle, hsame, hunedited⟩ := (h.checks c check hcheck).link
  have hreadAt := (h.checks c check hcheck).readAt
  have hdrop := h.dropCheck c
  have hget' : (db.dropCheck c).links.get check.name = some link := hget
  simp only [Db.finishCheck, hget']
  split
  next hrow =>
    obtain ⟨htarget, hrules, hupdated⟩ := hrow
    obtain ⟨hkept, hkept', hkept''⟩ := record_keeps link started result
    have hrecorded := (h.links check.name link hget).record
      ⟨check.readAt, started, check.targetUrl, check.expectations, result⟩ htarget.symm hrules.symm
    refine ⟨h.links_set hrecorded, fun c' check' hcheck' => ?_, ?_, ?_⟩
    · refine (hdrop.checks c' check' hcheck').snoc rfl rfl fun before hbefore => ?_
      have hbefore : db.links.get check'.name = some before := hbefore
      by_cases heq : check'.name = check.name
      · refine ⟨link.record started result, ?_, ?_⟩
        · show (db.links.set check.name _).get check'.name = _
          rw [Table.get_set, if_pos heq]
        · rw [heq, hget] at hbefore
          obtain rfl := Option.some.inj hbefore
          exact ⟨hkept, hkept', hkept''⟩
      · refine ⟨before, ?_, rfl, rfl, rfl⟩
        show (db.links.set check.name _).get check'.name = _
        rw [Table.get_set, if_neg heq]
        exact hbefore
    · refine h.log.snoc (fun _ _ heq => ?_) fun _ _ heq => by cases heq
      cases heq
      exact ⟨hreadAt, hsame hupdated.symm⟩
    · exact h.named_set (Option.isSome_iff_exists.mpr ⟨link, hget⟩)
  next hrow =>
    refine ⟨fun name' link' hlink' => ?_, fun c' check' hcheck' => ?_, ?_, fun e he => ?_⟩
    · exact (h.links name' link' hlink').silent ⟨rfl, rfl, fun _ _ => rfl⟩
    · exact (hdrop.checks c' check' hcheck').snoc rfl rfl fun before hbefore => ⟨before, hbefore, rfl, rfl, rfl⟩
    · refine h.log.snoc (fun _ _ heq => by cases heq) fun _ _ heq => ?_
      cases heq
      -- Unedited, the row would be the one the check has read.
      intro hsince
      obtain ⟨htarget, hrules, hupdated⟩ := hunedited hsince
      exact hrow ⟨htarget.symm, hrules.symm, hupdated.symm⟩
    · rcases List.mem_append.mp he with he | he
      · exact h.named e he
      · rw [List.mem_singleton.mp he]
        exact Option.isSome_iff_exists.mpr ⟨link, hget⟩

theorem Inv.step {l : Label} (h : Inv lib allowedHosts db) (hmoves : ClockMoves db l)
    (hstep : Links.step lib allowedHosts db l = some db') : Inv lib allowedHosts db' := by
  cases l with
  | create payload actor now =>
    simp only [Links.step] at hstep
    split at hstep <;> cases hstep
    next hfits =>
      cases hcreate : db.createLink lib allowedHosts payload actor now with
      | error => exact h
      | ok db' => exact h.create hfits hcreate
    next => exact h
  | update name payload actor now =>
    simp only [Links.step] at hstep
    split at hstep <;> cases hstep
    next hfits =>
      cases hupdate : db.updateLink lib allowedHosts name payload actor now with
      | error => exact h
      | ok db' => exact h.update hfits hmoves hupdate
    next => exact h
  | begin c name actor =>
    simp only [Links.step, Db.beginCheck] at hstep
    split at hstep
    · cases hstep
    · obtain ⟨link, hget, rfl⟩ := Option.map_eq_some_iff.mp hstep
      have hnothing : Unedited db.log name db.log.length := fun e he => by
        rw [List.drop_length] at he
        exact absurd he List.not_mem_nil
      exact h.setCheck c ⟨le_rfl, link, hget, le_rfl, fun _ => hnothing, fun _ => ⟨rfl, rfl, rfl⟩⟩
  | start c now =>
    obtain ⟨check, hcheck, hrest⟩ := Option.bind_eq_some_iff.mp hstep
    split at hrest <;> cases hrest
    have hold := h.checks c check hcheck
    exact h.setCheck c ⟨hold.readAt, hold.link⟩
  | finish c first second =>
    obtain ⟨check, hcheck, hrest⟩ := Option.bind_eq_some_iff.mp hstep
    obtain ⟨started, hstarted, rfl⟩ := Option.map_eq_some_iff.mp hrest
    exact h.finishCheck hcheck
  | drop c =>
    cases hstep
    exact h.dropCheck c

theorem inv_initial (lib : Library) (allowedHosts : List String) : Inv lib allowedHosts Db.initial where
  links _ _ hlink := nomatch hlink
  checks _ _ hcheck := nomatch hcheck
  log := ⟨fun before _ _ _ heq => absurd heq.symm (List.append_ne_nil_of_right_ne_nil before nofun),
    fun before _ _ _ heq => absurd heq.symm (List.append_ne_nil_of_right_ne_nil before nofun)⟩
  named _ he := absurd he List.not_mem_nil

/-- In every run in which the clock moves on from one edit of a link to the next:

1. a check counts exactly if nobody edited its link between its two reads of the row;
2. a link shows no check while none has counted; otherwise it shows the latest one under the number
   of the times the link was made due at once before it, then its start. Its start is on the row
   unless the link was made due at once since, its target and rules are the link's then, and the
   link's alert is failing exactly if that check failed and the link has not been turned off or on
   since;
3. a failing link's alert names a check of the link that failed, its target is one a link may have,
   and its rules are valid. -/
theorem row_shows (hrun : Run (step lib allowedHosts) ClockMoves Db.initial labels db)
    (hlink : db.links.get name = some link) :
    LogInv db.log ∧
      (Unchecked db.log name link ∨ ∃ period verdict, Shows db.log name link period verdict) ∧
      (link.alertState = .failing → ∃ check : Checked, .checked name check ∈ db.log ∧
        check.result.ok = false ∧ link.alertDetail = some check.result.detail) ∧
      (∃ parts host, IsTarget lib allowedHosts link.targetUrl parts host) ∧
      ∀ rule ∈ link.expectations, rule.isValid = true := by
  have hinv : Inv lib allowedHosts db :=
    hrun.invariant (Inv lib allowedHosts) (inv_initial lib allowedHosts) fun _ _ _ hinv hok hstep =>
      hinv.step hok hstep
  have hrow := hinv.links name link hlink
  exact ⟨hinv.log, hrow.shows, hrow.alerts, hrow.target, hrow.rules⟩

/-- A school's page, at one public address. -/
def schoolLibrary : Library where
  urlsplit url := if url = "https://i.tw/" then some ⟨"https", "i.tw", some "i.tw", some none⟩ else none
  urljoin _ location := some location
  lower text := text
  repr text := "'" ++ text ++ "'"
  ascii text := "'" ++ text ++ "'"
  ipAddress raw := if raw = "1.1.1.1" then some (.v4 0x01010101) else none
  isGlobal address := address = .v4 0x01010101
  isMulticast _ := false
  hrefs _ := []

/-- A fetch that is answered with a status. -/
def answered (status : Nat) : Attempt := ⟨⟨fun _ _ => ["1.1.1.1"], fun _ _ => .page status ""⟩, false⟩

/-- Two checks at once, of which the one that started first fails and ends last; then an edit of the
interval while a third runs. -/
def overtaken : List Label :=
  [.create ⟨"cal", "https://i.tw/", true, [.status 200], 60⟩ "op" 1,
    .begin 0 "cal" none, .start 0 10, .begin 1 "cal" none, .start 1 20,
    .finish 1 (answered 200) (answered 200), .finish 0 (answered 503) (answered 503),
    .begin 2 "cal" (some "op"), .start 2 30, .update "cal" ⟨none, none, none, some 30⟩ "op" 40,
    .finish 2 (answered 404) (answered 404)]

theorem row_shows_of_overtaken :
    ∃ db link, Run (step schoolLibrary ["i.tw"]) ClockMoves Db.initial overtaken db ∧
      db.links.get "cal" = some link ∧ link.lastCheckAt = some 20 ∧ link.alertState = .ok ∧
      (Unchecked db.log "cal" link ∨ ∃ period verdict, Shows db.log "cal" link period verdict) := by
  have hexec : (execWhere (step schoolLibrary ["i.tw"]) ClockMoves Db.initial overtaken).bind
      (fun db => (db.links.get "cal").map fun link => (link.lastCheckAt, link.alertState)) =
        some (some 20, .ok) := by
    decide +kernel
  obtain ⟨db, hdb, hlink⟩ := Option.bind_eq_some_iff.mp hexec
  obtain ⟨link, hget, hcolumns⟩ := Option.map_eq_some_iff.mp hlink
  obtain ⟨hat, halert⟩ := Prod.mk.inj hcolumns
  have hrun := run_of_execWhere hdb
  exact ⟨db, link, hrun, hget, hat, halert, (row_shows hrun hget).2.1⟩

end TigerDuck.Links
