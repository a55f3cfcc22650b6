import TigerDuck.Bulletins.FanOut

/-!
# What a fan-out promises

The invariant of `FanOut`, read as what a device and an operator see of a bulletin.

## Main results

- `pushes_bounded`: how often a device is pushed a bulletin.
- `stamped_complete`: what a stamp on a bulletin says, and that nothing follows it.
- `stamped_by_third`: three fan-outs that run to their end are enough.
-/

namespace TigerDuck.Bulletins.DeviceDispatch

open Relational Transition

variable {db db' : Db} {k : Tick} {l : Label} {labels labels' : List Label} {id : BulletinId}
  {i : DispatchId} {d : Dispatch} {deviceId : String}

/-! ### How often a device is pushed a bulletin -/

/-- The fan-outs and the processes that stopped before they had run to their end. -/
def faults (labels : List Label) : Nat := (labels.filter Label.isFault).length

/-- The pushes of a row handed over and not recorded. -/
def Db.inFlightOf (db : Db) (i : DispatchId) : List Handing :=
  db.inFlight.filter fun h => h.dispatchId = i

/-- A row has one push in flight at most, and then it is one that is still tried. -/
theorem Hand.inFlight {answers : List (Loaded × SendResult)} {rows : List Loaded} {ts : Time}
    (hhand : Hand db id (answers.map Prod.fst ++ rows)) (i : DispatchId) :
    let pushes := (answers.map fun a => a.1.handing a.2 ts).filter fun h => h.dispatchId = i
    pushes.length ≤ 1 ∧ (pushes ≠ [] → Unsettled (db.told i)) := by
  have hids : ((answers.map fun a => a.1.handing a.2 ts).map Handing.dispatchId).Nodup := by
    have hnodup := hhand.nodup
    rw [List.map_append] at hnodup
    rw [List.map_map]
    simpa [List.map_map, Function.comp_def, Loaded.handing] using (List.nodup_append.mp hnodup).1
  constructor
  · -- One push of each row is in flight.
    have hcount := List.nodup_iff_count_le_one.mp hids i
    rw [List.count, List.countP_map, List.countP_eq_length_filter] at hcount
    convert hcount using 3
    ext h
    exact (beq_eq_decide ..).symm
  · intro hne
    obtain ⟨p, hp⟩ := List.exists_mem_of_ne_nil _ hne
    obtain ⟨hp, hid⟩ := List.mem_filter.mp hp
    obtain ⟨⟨row, result⟩, hmem, rfl⟩ := List.mem_map.mp hp
    obtain rfl : row.id = i := of_decide_eq_true hid
    exact (hhand.each row (List.mem_append_left _ (List.mem_map_of_mem hmem))).unsettled

theorem Stage.inFlight (hstage : Stage labels db k.phase) (i : DispatchId) :
    ((k.phase.inFlight k.ts).filter fun h => h.dispatchId = i).length ≤ 1 ∧
      ((k.phase.inFlight k.ts).filter (fun h => h.dispatchId = i) ≠ [] →
        Unsettled (db.told i)) := by
  cases hphase : k.phase with
  | answered id answers chunks rows =>
    rw [hphase] at hstage
    exact hstage.2.inFlight i
  | _ => exact ⟨Nat.zero_le 1, fun h => absurd rfl h⟩

theorem Inv.inFlight (hinv : Inv labels db) (i : DispatchId) :
    (db.inFlightOf i).length ≤ 1 ∧ (db.inFlightOf i ≠ [] → Unsettled (db.told i)) := by
  unfold Db.inFlightOf Db.inFlight
  cases htick : db.tick with
  | none => exact ⟨Nat.zero_le 1, fun h => absurd rfl h⟩
  | some k => exact (hinv.tick k htick).stage.inFlight i

/-- A step that drops an answer is a fault, and drops one of a row at most. -/
theorem lost_step (hinv : Inv labels db) (h : step db l = some db') (i : DispatchId) :
    (db'.lost.filter fun h => h.dispatchId = i).length ≤
      (db.lost.filter fun h => h.dispatchId = i).length + l.isFault.toNat := by
  have hdrop : ∀ k, db.tick = some k →
      ((db.lost ++ k.phase.inFlight k.ts).filter fun h => h.dispatchId = i).length ≤
        (db.lost.filter fun h => h.dispatchId = i).length + 1 := by
    intro k htick
    rw [List.filter_append, List.length_append]
    have := ((hinv.tick k htick).stage.inFlight i).1
    omega
  cases step_cases h with
  | fail htick => exact hdrop _ htick
  | crash htick => exact hdrop _ htick
  | @fileRows k id deviceIds htick hphase hthere =>
    have hstage := hinv.stage_of_phase htick hphase
    have hgrows := (hinv.tables.fileAll hthere hstage.2.2).1
    show ((db.fileAll id deviceIds).lost.filter _).length ≤ _
    rw [hgrows.lost]
    exact Nat.le_add_right _ _
  | @record k id answers chunks rows htick hphase =>
    have hstage := hinv.stage_of_phase htick hphase
    have hrec := (hstage.2.recordAll hinv.tables k.ts).2.2
    show ((db.recordAll k.ts answers).lost.filter _).length ≤ _
    rw [hrec.lost]
    exact Nat.le_add_right _ _
  | _ => exact Nat.le_add_right _ _

theorem lost_le (hrun : FreeRun step Db.initial labels db) (i : DispatchId) :
    (db.lost.filter fun h => h.dispatchId = i).length ≤ faults labels := by
  induction hrun with
  | nil => exact Nat.zero_le _
  | @snoc labels db l db' hrun _ hstep ih =>
    have hle := lost_step (inv_of_run hrun) hstep i
    have hfault : faults (labels ++ [l]) = faults labels + l.isFault.toNat := by
      rw [faults, faults, List.filter_append, List.length_append]
      cases hl : l.isFault <;> simp [hl]
    omega

/-- A push of a bulletin, for a device. -/
def Handing.isFor (id : BulletinId) (deviceId : String) (h : Handing) : Bool :=
  decide (h.bulletinId = id) && decide (h.deviceId = deviceId)

/-- The pushes of a bulletin handed over for a device. -/
def Db.pushesTo (db : Db) (id : BulletinId) (deviceId : String) : List Handing :=
  db.handed.filter (Handing.isFor id deviceId)

/-- The answers recorded for a device. -/
def Db.answersTo (db : Db) (id : BulletinId) (deviceId : String) : List Classification :=
  (db.recorded.filter (Handing.isFor id deviceId)).map Handing.classification

/-- Every push is of a row that has been filed. -/
theorem Inv.filed (hinv : Inv labels db) {p : Handing} (hp : p ∈ db.handed) :
    db.filed.get p.dispatchId = some (p.bulletinId, p.deviceId) := by
  rcases List.mem_append.mp hp with hp | hp
  · exact hinv.tables.ledger p hp
  · unfold Db.inFlight at hp
    cases htick : db.tick with
    | none => rw [htick] at hp; cases hp
    | some k =>
      rw [htick] at hp
      exact filed_of_inFlight (hinv.tick k htick).stage hp

/-- The pushes for a device are those of one row, if there are any. -/
theorem Inv.oneRow (hinv : Inv labels db) (id : BulletinId) (deviceId : String) :
    (∀ p ∈ db.handed, p.isFor id deviceId = false) ∨
      ∃ i, ∀ p ∈ db.handed, p.isFor id deviceId = decide (p.dispatchId = i) := by
  by_cases hsome : ∃ p ∈ db.handed, p.isFor id deviceId = true
  · right
    obtain ⟨p, hp, hpair⟩ := hsome
    have hfiled := hinv.filed hp
    simp only [Handing.isFor, Bool.and_eq_true, decide_eq_true_eq] at hpair
    rw [hpair.1, hpair.2] at hfiled
    refine ⟨p.dispatchId, fun q hq => ?_⟩
    have hfiled' := hinv.filed hq
    rw [Bool.eq_iff_iff]
    simp only [Handing.isFor, Bool.and_eq_true, decide_eq_true_eq]
    constructor
    · rintro ⟨hid, hdevice⟩
      rw [hid, hdevice] at hfiled'
      exact hinv.tables.filedOnce _ _ _ hfiled' hfiled
    · intro heq
      rw [heq, hfiled] at hfiled'
      obtain ⟨hid, hdevice⟩ := Prod.mk.inj (Option.some.inj hfiled')
      exact ⟨hid.symm, hdevice.symm⟩
  · left
    intro p hp
    rw [← Bool.not_eq_true]
    exact fun hpair => hsome ⟨p, hp, hpair⟩

/-- The handed pushes of a row: those recorded, those lost and those in flight. -/
theorem handed_filter (db : Db) (p : Handing → Bool) :
    db.handed.filter p = db.recorded.filter p ++ db.lost.filter p ++ db.inFlight.filter p := by
  rw [Db.handed, List.filter_append, List.filter_append]

theorem accepted_eq (db : Db) (i : DispatchId) :
    ((db.recorded.filter fun h => h.dispatchId = i).filter fun h =>
      h.classification = .sent).length = ((db.told i).filter (· = .sent)).length := by
  rw [Db.told, List.filter_map, List.length_map]
  rfl

/-- In every run, whatever the order of the ticks and of the other writers, wherever a fan-out
raises and whenever the process stops:

- the answers recorded for a device are three at most, and none but the last has settled its row;
- a device is handed a bulletin at most three times, and once more for each fault;
- its provider accepts it at most once, and once more for each fault. -/
theorem pushes_bounded (hrun : FreeRun step Db.initial labels db) (id : BulletinId)
    (deviceId : String) :
    Settles (db.answersTo id deviceId) ∧
      (db.pushesTo id deviceId).length ≤ MAX_DISPATCH_ATTEMPTS + faults labels ∧
      ((db.pushesTo id deviceId).filter fun h => h.classification = .sent).length ≤
        1 + faults labels := by
  have hinv := inv_of_run hrun
  rcases hinv.oneRow id deviceId with hnone | ⟨i, hone⟩
  · have hnil : db.pushesTo id deviceId = [] := by
      rw [Db.pushesTo, List.filter_eq_nil_iff]
      exact fun p hp => by rw [hnone p hp]; exact Bool.false_ne_true
    have hnil' : db.answersTo id deviceId = [] := by
      rw [Db.answersTo, List.map_eq_nil_iff, List.filter_eq_nil_iff]
      intro p hp
      rw [hnone p (List.mem_append_left _ (List.mem_append_left _ hp))]
      exact Bool.false_ne_true
    rw [hnil, hnil']
    exact ⟨Unsettled.nil.settles, Nat.zero_le _, Nat.zero_le _⟩
  · have htold : db.answersTo id deviceId = db.told i := by
      refine congrArg _ (List.filter_congr fun p hp => ?_)
      exact hone p (List.mem_append_left _ (List.mem_append_left _ hp))
    have hpushes : db.pushesTo id deviceId = db.handed.filter fun h => h.dispatchId = i :=
      List.filter_congr hone
    have hsettles := hinv.tables.settles i
    obtain ⟨hflight, hopen⟩ := hinv.inFlight i
    have hlost := lost_le hrun i
    have hlen : (db.recorded.filter fun h => h.dispatchId = i).length = (db.told i).length :=
      (List.length_map ..).symm
    rw [htold, hpushes, handed_filter]
    refine ⟨hsettles, ?_, ?_⟩
    · -- The push in flight is one of a row that is still tried.
      have hroom : (db.told i).length + (db.inFlightOf i).length ≤ MAX_DISPATCH_ATTEMPTS := by
        by_cases hnil : db.inFlightOf i = []
        · rw [hnil]
          exact hsettles.1
        · have := (hopen hnil).1
          omega
      rw [List.length_append, List.length_append, hlen]
      have hdef : (db.inFlight.filter fun h => decide (h.dispatchId = i)).length =
          (db.inFlightOf i).length := rfl
      omega
    · have hroom : ((db.told i).filter (· = .sent)).length + (db.inFlightOf i).length ≤ 1 := by
        by_cases hnil : db.inFlightOf i = []
        · rw [hnil]
          exact hsettles.accepted
        · rw [(hopen hnil).accepted]
          exact (Nat.zero_add _).le.trans hflight
      have haccepted := accepted_eq db i
      have hlost' := List.length_filter_le (fun h : Handing => decide (h.classification = .sent))
        (db.lost.filter fun h => h.dispatchId = i)
      have hflight' := List.length_filter_le (fun h : Handing => decide (h.classification = .sent))
        (db.inFlightOf i)
      rw [List.filter_append, List.filter_append, List.length_append, List.length_append]
      have hdef : db.inFlight.filter (fun h => decide (h.dispatchId = i)) = db.inFlightOf i := rfl
      rw [hdef, haccepted]
      omega

/-- A phone that is no account's has a rule that hits the one bulletin. -/
def audience : List Label :=
  [.writeDevice "phone" ⟨"anon-phone", .apple, some .iphone, "", some "80ab", "app", true, none,
      none, 0, 0⟩,
    .writeRules [⟨"phone", ⟨none, ["csie"], [], .and, true⟩⟩],
    .newBulletin ⟨.processed, false, none, none, some "csie", [], "Notice", none, none, "", none⟩]

/-- A fan-out of the bulletin that has come to the phone's push. -/
def untilSent (ts : Time) (result : SendResult) : List Label :=
  [.begin ts, .openBulletin, .resolveDevices, .fileRows, .loadRows [1], .sendApple result]

/-- A fan-out of the bulletin that runs to its end. -/
def fanOut (ts : Time) (result : SendResult) : List Label :=
  untilSent ts result ++ [.record, .close, .finish]

def accepts : SendResult := ⟨true, "200", none⟩

def refuses : SendResult := ⟨false, "503", none⟩

/-- The process stops with the first push in flight: the phone is pushed the bulletin twice. -/
theorem pushes_bounded_of_crash :
    ∃ db, FreeRun step Db.initial (audience ++ untilSent 60 accepts ++ .crash :: fanOut 120 accepts)
        db ∧
      (db.pushesTo 1 "phone").length = 2 ∧
      Settles (db.answersTo 1 "phone") ∧ (db.pushesTo 1 "phone").length ≤ 3 + 1 ∧
      ((db.pushesTo 1 "phone").filter fun h => h.classification = .sent).length ≤ 1 + 1 := by
  have hexec : ((exec step Db.initial
      (audience ++ untilSent 60 accepts ++ .crash :: fanOut 120 accepts)).map fun db =>
        (db.pushesTo 1 "phone").length) = some 2 := by
    decide +kernel
  obtain ⟨db, hdb, hlength⟩ := Option.map_eq_some_iff.mp hexec
  have hrun := run_of_exec hdb
  exact ⟨db, hrun, hlength, pushes_bounded hrun 1 "phone"⟩

/-! ### The stamp -/

/-- No tick has a bulletin in hand, or waiting. -/
def Away (db : Db) (id : BulletinId) : Prop :=
  ∀ k, db.tick = some k → id ∉ k.todo ∧ k.phase.bulletin ≠ some id

/-- A bulletin no tick finds due is begun by none. -/
theorem Away.step (haway : Away db id) (hdue : ∀ ts, id ∉ db.dueIds ts)
    (h : step db l = some db') : Away db' id := by
  intro k' hk'
  have htake : ∀ {k id' todo}, db.tick = some k → k.todo = id' :: todo → id ∉ todo ∧ id' ≠ id := by
    intro k id' todo htick htodo
    have hnot := (haway k htick).1
    rw [htodo, List.mem_cons, not_or] at hnot
    exact ⟨hnot.2, Ne.symm hnot.1⟩
  -- A step within a fan-out: its bulletin stays in hand.
  have hwithin : ∀ {k k'' : Tick} {phase : Phase}, db.tick = some k → k.phase = phase →
      k''.todo = k.todo → k''.phase.bulletin = phase.bulletin →
      id ∉ k''.todo ∧ k''.phase.bulletin ≠ some id := by
    intro k k'' phase htick hphase htodo hsame
    obtain ⟨hnot, hne⟩ := haway k htick
    rw [hphase, ← hsame] at hne
    rw [htodo]
    exact ⟨hnot, hne⟩
  cases step_cases h with
  | begin => cases hk'; exact ⟨hdue _, by simp [Phase.bulletin]⟩
  | @pass k id' todo htick hphase htodo =>
    cases hk'
    exact ⟨(htake htick htodo).1, (haway k htick).2⟩
  | openBulletin htick hphase htodo =>
    cases hk'
    obtain ⟨hnot, hne⟩ := htake htick htodo
    exact ⟨hnot, fun heq => hne (Option.some.inj heq)⟩
  | failNext htick hphase htodo =>
    cases hk'
    obtain ⟨hnot, hne⟩ := htake htick htodo
    exact ⟨hnot, fun heq => hne (Option.some.inj heq)⟩
  | fail htick hbulletin =>
    cases hk'
    obtain ⟨hnot, hne⟩ := haway _ htick
    exact ⟨hnot, fun heq => hne (hbulletin.trans heq)⟩
  | close htick => cases hk'; exact ⟨(haway _ htick).1, by simp [Phase.bulletin]⟩
  | delay htick => cases hk'; exact ⟨(haway _ htick).1, by simp [Phase.bulletin]⟩
  | undelayed htick => cases hk'; exact ⟨(haway _ htick).1, by simp [Phase.bulletin]⟩
  | finish => cases hk'
  | crash => cases hk'
  | newBulletin => exact haway k' hk'
  | editBulletin => exact haway k' hk'
  | deleteBulletin => exact haway k' hk'
  | writeDevice => exact haway k' hk'
  | writeRules => exact haway k' hk'
  | resolveDevices htick hphase => cases hk'; exact hwithin htick hphase rfl rfl
  | fileRows htick hphase => cases hk'; exact hwithin htick hphase rfl rfl
  | loadRows htick hphase => cases hk'; exact hwithin htick hphase rfl rfl
  | sendAndroid htick hphase => cases hk'; exact hwithin htick hphase rfl rfl
  | sendApple htick hphase => cases hk'; exact hwithin htick hphase rfl rfl
  | cancel htick hphase => cases hk'; exact hwithin htick hphase rfl rfl
  | record htick hphase => cases hk'; exact hwithin htick hphase rfl rfl

/-- A bulletin that is still there was there before, and keeps its stamp. -/
theorem stamp_stays (hinv : Inv labels db) (h : step db l = some db') (hlt : id < db.nextBulletin)
    {b' : Bulletin} (hb' : db'.bulletins.get id = some b') :
    ∃ b, db.bulletins.get id = some b ∧ (b.notifiedAt ≠ none → b'.notifiedAt ≠ none) := by
  cases step_cases h with
  | @fileRows k id' deviceIds htick hphase hthere =>
    have hstage := hinv.stage_of_phase htick hphase
    have hgrows := (hinv.tables.fileAll hthere hstage.2.2).1
    exact ⟨b', hgrows.bulletins ▸ hb', fun hs => hs⟩
  | @record k id' answers chunks rows htick hphase =>
    have hstage := hinv.stage_of_phase htick hphase
    have hrec := (hstage.2.recordAll hinv.tables k.ts).2.2
    exact ⟨b', hrec.bulletins ▸ hb', fun hs => hs⟩
  | @close k id' htick hphase =>
    have hclose : (if db.pendingIds id' = [] then db.bulletins.modify fun k' b =>
        if k' = id' then { b with notifiedAt := some k.ts } else b
      else db.bulletins).get id = some b' := hb'
    split at hclose
    · obtain ⟨b, hb, rfl⟩ := Option.map_eq_some_iff.mp ((Table.get_modify ..).symm.trans hclose)
      refine ⟨b, hb, fun hs => ?_⟩
      split
      · exact Option.some_ne_none _
      · exact hs
    · exact ⟨b', hclose, fun hs => hs⟩
  | delay =>
    obtain ⟨b, hb, rfl⟩ := Option.map_eq_some_iff.mp ((Table.get_modify ..).symm.trans hb')
    refine ⟨b, hb, fun hs => ?_⟩
    split <;> exact hs
  | newBulletin =>
    rw [Table.get_set, if_neg (Nat.ne_of_lt hlt)] at hb'
    exact ⟨b', hb', fun hs => hs⟩
  | editBulletin =>
    obtain ⟨b, hb, rfl⟩ := Option.map_eq_some_iff.mp ((Table.get_modify ..).symm.trans hb')
    refine ⟨b, hb, fun hs => ?_⟩
    split <;> exact hs
  | deleteBulletin =>
    rw [Table.get_deleteWhere_key] at hb'
    split at hb'
    next => cases hb'
    next => exact ⟨b', hb', fun hs => hs⟩
  | _ => exact ⟨b', hb', fun hs => hs⟩

/-- What holds from the stamp of a bulletin on. -/
structure Over (id : BulletinId) (start db : Db) : Prop where
  known : id < db.nextBulletin
  away : Away db id
  stamped : ∀ b, db.bulletins.get id = some b → b.notifiedAt ≠ none
  pushes : db.pushesOf id = start.pushesOf id
  rows : (db.bulletins.get id).isSome = true → ∀ i d, d.bulletinId = id →
    (db.dispatches.get i = some d ↔ start.dispatches.get i = some d)

theorem Over.step {start : Db} (hover : Over id start db) (hinv : Inv labels db)
    (h : step db l = some db') : Over id start db' := by
  have hkept := step_kept hinv h
  have hsame := step_untouched hinv (fun k hk => (hover.away k hk).2) h
  have hdue : ∀ ts, id ∉ db.dueIds ts := by
    intro ts hmem
    have hget := List.mem_of_mem_take hmem
    rw [List.mem_insertionSort, List.mem_map] at hget
    obtain ⟨⟨_, b⟩, hrow, rfl⟩ := hget
    have hb := (Table.get_eq_some_iff ..).mpr (List.mem_filter.mp hrow).1
    exact hover.stamped b hb (mem_dueIds hmem b hb)
  refine ⟨hover.known.trans_le hkept.nextBulletin, hover.away.step hdue h, fun b' hb' => ?_,
    hsame.pushes.trans hover.pushes, fun hsome i d hid => ?_⟩
  · obtain ⟨b, hb, hstays⟩ := stamp_stays hinv h hover.known hb'
    exact hstays (hover.stamped b hb)
  · rw [← hover.rows (hkept.bulletins id hover.known hsome) i d hid]
    exact ⟨fun hd => hsame.rows i d hd hid, fun hd => hsame.kept i d hd hid hsome⟩

theorem over_of_run {start : Db} (hrun : FreeRun step Db.initial labels start)
    (hrun' : FreeRun step start labels' db) (hover : Over id start start) : Over id start db := by
  induction hrun' with
  | nil => exact hover
  | snoc hrun' _ hstep ih =>
    exact ih.step (inv_of_run (hrun.append hrun')) hstep

/-- The end of the fan-out of a bulletin. -/
def closes (id : BulletinId) (db : Db) (l : Label) : Bool :=
  match l, db.tick with
  | .close, some k => decide (k.phase = .sending id [] [])
  | _, _ => false

theorem closes_iff : closes id db l = true ↔ Closes db l id := by
  unfold closes Closes
  split
  next k htick =>
    rw [decide_eq_true_eq]
    exact ⟨fun hphase => ⟨rfl, k, htick, hphase⟩, fun ⟨_, k', hk', hphase⟩ =>
      Option.some.inj (htick.symm.trans hk') ▸ hphase⟩
  next hno =>
    refine ⟨fun h => absurd h Bool.false_ne_true, ?_⟩
    rintro ⟨rfl, k, htick, _⟩
    exact absurd htick (hno k rfl)

/-- A row after a step: it was there, or it is new; the end of its bulletin's fan-out counts. -/
structure Counted (db db' : Db) (l : Label) : Prop where
  nextDispatch : db.nextDispatch ≤ db'.nextDispatch
  rows : ∀ i d', db'.dispatches.get i = some d' → db.nextDispatch ≤ i ∨
    ∃ d, db.dispatches.get i = some d ∧ d.bulletinId = d'.bulletinId ∧
      d'.fanouts = d.fanouts + (closes d.bulletinId db l).toNat

theorem Counted.of_rows (hclose : l ≠ .close) (hnext : db'.nextDispatch = db.nextDispatch)
    (hrows : ∀ i d', db'.dispatches.get i = some d' → ∃ d, db.dispatches.get i = some d ∧
      d.bulletinId = d'.bulletinId ∧ d'.fanouts = d.fanouts) : Counted db db' l := by
  refine ⟨hnext.ge, fun i d' hd' => Or.inr ?_⟩
  obtain ⟨d, hd, hid, hfanouts⟩ := hrows i d' hd'
  have hno : closes d.bulletinId db l = false := by
    rw [← Bool.not_eq_true, closes_iff]
    exact fun h => hclose h.1
  exact ⟨d, hd, hid, by rw [hno]; exact hfanouts⟩

theorem step_counted (hinv : Inv labels db) (h : step db l = some db') : Counted db db' l := by
  have hsame : ∀ i d', db.dispatches.get i = some d' → ∃ d, db.dispatches.get i = some d ∧
      d.bulletinId = d'.bulletinId ∧ d'.fanouts = d.fanouts := fun i d' hd' =>
    ⟨d', hd', rfl, rfl⟩
  cases step_cases h with
  | @fileRows k id deviceIds htick hphase hthere =>
    have hstage := hinv.stage_of_phase htick hphase
    have hgrows := (hinv.tables.fileAll hthere hstage.2.2).1
    refine ⟨hgrows.nextDispatch, fun i d' hd' => ?_⟩
    rcases hgrows.new i d' hd' with hold | ⟨_, hnew⟩
    · exact Or.inr ⟨d', hold, rfl, by simp [closes]⟩
    · exact Or.inl hnew
  | @cancel k id row rows htick hphase =>
    refine Counted.of_rows (by simp) rfl fun i d' hd' => ?_
    obtain ⟨d, hd, rfl⟩ := Option.map_eq_some_iff.mp ((Table.get_modify ..).symm.trans hd')
    refine ⟨d, hd, ?_⟩
    split <;> exact ⟨rfl, rfl⟩
  | @record k id answers chunks rows htick hphase =>
    have hstage := hinv.stage_of_phase htick hphase
    have hrec := (hstage.2.recordAll hinv.tables k.ts).2.2
    refine Counted.of_rows (by simp) hrec.nextDispatch fun i d' hd' => ?_
    obtain ⟨d, hd⟩ := Option.isSome_iff_exists.mp
      ((hrec.there i).symm.trans (Option.isSome_of_eq_some hd'))
    obtain ⟨d'', hd'', hid, _, hfanouts⟩ := hrec.rows i d hd
    obtain rfl := Option.some.inj (hd'.symm.trans hd'')
    exact ⟨d, hd, hid.symm, hfanouts⟩
  | @close k id htick hphase =>
    refine ⟨le_rfl, fun i d' hd' => Or.inr ?_⟩
    obtain ⟨d, hd, rfl⟩ := Option.map_eq_some_iff.mp ((Table.get_modify ..).symm.trans hd')
    refine ⟨d, hd, by split <;> rfl, ?_⟩
    have hcloses : closes d.bulletinId db .close = decide (d.bulletinId = id) := by
      rw [Bool.eq_iff_iff, closes_iff, decide_eq_true_eq]
      constructor
      · rintro ⟨-, k', hk', hphase'⟩
        obtain rfl := Option.some.inj (htick.symm.trans hk')
        rw [hphase] at hphase'
        injection hphase' with hid
        exact hid.symm
      · rintro rfl
        exact ⟨rfl, k, htick, hphase⟩
    rw [hcloses]
    split
    next hid => rw [decide_eq_true hid]; rfl
    next hid => rw [decide_eq_false hid]; rfl
  | deleteBulletin =>
    refine Counted.of_rows (by simp) rfl fun i d' hd' => ?_
    rw [Table.get_deleteWhere, Option.filter_eq_some_iff] at hd'
    exact hsame i d' hd'.1
  | _ => exact Counted.of_rows (by simp) rfl hsame

/-- A bulletin whose fan-out ends with no row of it pending is stamped. -/
theorem stamped_of_closes (h : step db l = some db') (hcloses : Closes db l id) {b : Bulletin}
    (hb : db'.bulletins.get id = some b)
    (hsettled : ∀ i d, db'.dispatches.get i = some d → d.bulletinId = id → d.status ≠ .pending) :
    b.notifiedAt ≠ none := by
  obtain ⟨rfl, k, htick, hphase⟩ := hcloses
  have hdb : db' = { db.close id k.ts with tick := some { k with phase := .next } } := by
    unfold DeviceDispatch.step at h
    simp only [htick, Option.bind_some, tickStep, hphase] at h
    exact (Option.some.inj h).symm
  have hnil : db.pendingIds id = [] := by
    rw [List.eq_nil_iff_forall_not_mem]
    intro i hi
    obtain ⟨d, hd, hid, hpending⟩ := Db.mem_pendingIds.mp hi
    refine hsettled i { d with fanouts := d.fanouts + 1 } ?_ hid hpending
    rw [hdb]
    show (db.dispatches.modify _).get i = _
    rw [Table.get_modify, hd, Option.map_some, if_pos hid]
  have hclose : (if db.pendingIds id = [] then db.bulletins.modify fun k' b =>
      if k' = id then { b with notifiedAt := some k.ts } else b
    else db.bulletins).get id = some b := by
    rw [hdb] at hb
    exact hb
  rw [if_pos hnil] at hclose
  obtain ⟨b₀, _, rfl⟩ := Option.map_eq_some_iff.mp ((Table.get_modify ..).symm.trans hclose)
  rw [if_pos rfl]
  exact Option.some_ne_none _

/-- The rows of a bulletin are those there were at the start. -/
def Closed (id : BulletinId) (start db : Db) : Prop :=
  ∀ i d, db.dispatches.get i = some d → d.bulletinId = id → (start.dispatches.get i).isSome = true

/-- What the fan-outs that have run to their end since the start leave. -/
structure Advanced (id : BulletinId) (start db : Db) (n : Nat) : Prop where
  nextDispatch : start.nextDispatch ≤ db.nextDispatch
  known : 0 < n → id < db.nextBulletin
  rows : ∀ i d₀ d, start.dispatches.get i = some d₀ → db.dispatches.get i = some d →
    d.bulletinId = id → d.fanouts = d₀.fanouts + n
  stamped : MAX_DISPATCH_ATTEMPTS ≤ n → Closed id start db → ∀ b, db.bulletins.get id = some b →
    b.notifiedAt ≠ none

/-- A row that has seen three fan-outs run to their end is settled. -/
theorem Inv.settled_of_fanouts (hinv : Inv labels db) (hd : db.dispatches.get i = some d)
    (hthree : MAX_DISPATCH_ATTEMPTS ≤ d.fanouts) : d.status ≠ .pending := by
  intro hpending
  have hle := hinv.tables.rounds i d hd hpending
  obtain ⟨hattempts, hopen⟩ := hinv.tables.outcome i d hd
  rw [hpending] at hopen
  have hlt := hopen.1
  omega

theorem Advanced.step {start : Db} {n : Nat} (h : Advanced id start db n)
    (hstart : Tables start) (hinv : Inv labels db) (hinv' : Inv (labels ++ [l]) db')
    (hstep : step db l = some db') :
    Advanced id start db' (n + (closes id db l).toNat) := by
  have hkept := step_kept hinv hstep
  have hcounted := step_counted hinv hstep
  have hrows : ∀ i d₀ d, start.dispatches.get i = some d₀ → db'.dispatches.get i = some d →
      d.bulletinId = id → d.fanouts = d₀.fanouts + (n + (closes id db l).toNat) := by
    intro i d₀ d hd₀ hd hid
    rcases hcounted.rows i d hd with hnew | ⟨d₁, hd₁, hid₁, hfanouts⟩
    · -- A row of the start is none a fan-out has filed since.
      have hlt := (hstart.filedBelow i _ _ (hstart.dispatch i d₀ hd₀).1).1
      exact absurd (hlt.trans_le (h.nextDispatch.trans hnew)) (Nat.lt_irrefl i)
    · have hbefore := h.rows i d₀ d₁ hd₀ hd₁ (hid₁.trans hid)
      rw [hid₁, hid] at hfanouts
      omega
  refine ⟨h.nextDispatch.trans hcounted.nextDispatch, fun hpos => ?_, hrows, ?_⟩
  · by_cases hcloses : closes id db l = true
    · obtain ⟨_, k, htick, hphase⟩ := closes_iff.mp hcloses
      have hstage := hinv.stage_of_phase htick hphase
      exact hstage.1.1.trans_le hkept.nextBulletin
    · rw [Bool.not_eq_true] at hcloses
      rw [hcloses] at hpos
      exact (h.known hpos).trans_le hkept.nextBulletin
  · intro hthree hclosed b hb
    by_cases hcloses : closes id db l = true
    -- The third fan-out, or a later one, ends here.
    · refine stamped_of_closes hstep (closes_iff.mp hcloses) hb fun i d hd hid => ?_
      obtain ⟨d₀, hd₀⟩ := Option.isSome_iff_exists.mp (hclosed i d hd hid)
      have hfanouts := hrows i d₀ d hd₀ hd hid
      exact hinv'.settled_of_fanouts hd (by omega)
    · rw [Bool.not_eq_true] at hcloses
      rw [hcloses] at hthree
      have hpos : 0 < n := by
        have : 0 < MAX_DISPATCH_ATTEMPTS := by decide
        simp only [Bool.toNat_false] at hthree
        omega
      obtain ⟨b₀, hb₀, hstays⟩ := stamp_stays hinv hstep (h.known hpos) hb
      refine hstays (h.stamped hthree (fun i d hd hid => ?_) b₀ hb₀)
      obtain ⟨d', hd', hid', _⟩ := hkept.rows i d hd (by rw [hid, hb]; rfl)
      exact hclosed i d' hd' (hid'.trans hid)

/-- From any state a run can reach, three fan-outs of a bulletin that run to their end stamp it,
whatever the providers answer and whatever else fails in between, unless a device has joined its
devices meanwhile. -/
theorem stamped_by_third {start : Db} (hrun : FreeRun step Db.initial labels start)
    (hrun' : FreeRun step start labels' db) {b : Bulletin} (hb : db.bulletins.get id = some b)
    (hclosed : Closed id start db)
    (hthree : MAX_DISPATCH_ATTEMPTS ≤ count step (closes id) start labels') :
    b.notifiedAt ≠ none := by
  have hadvanced : Advanced id start db (count step (closes id) start labels') := by
    clear hb hclosed hthree
    induction hrun' with
    | nil =>
      refine ⟨le_rfl, fun hpos => absurd hpos (Nat.lt_irrefl 0), fun i d₀ d hd₀ hd _ => ?_, ?_⟩
      · rw [Option.some.inj (hd.symm.trans hd₀)]
        rfl
      · exact fun hle => absurd (Nat.le_zero.mp hle) (by decide)
    | @snoc ls db l db' hrun' hok hstep ih =>
      rw [count_snoc hrun'.exec_eq]
      exact ih.step (inv_of_run hrun).tables (inv_of_run (hrun.append hrun'))
        (by rw [List.append_assoc]; exact inv_of_run (hrun.append (hrun'.snoc hok hstep))) hstep
  exact hadvanced.stamped hthree hclosed b hb

/-- The first fan-out has filed the phone's row. -/
def rowFiled : List Label := audience ++ [.begin 60, .openBulletin, .resolveDevices, .fileRows]

/-- Its push is refused, and so are those of the next two. -/
def refusedThrice : List Label :=
  [.loadRows [1], .sendApple refuses, .record, .close, .finish] ++ fanOut 120 refuses ++
    fanOut 180 refuses

/-- A phone whose provider is out of order does not hold up its bulletin for ever. -/
theorem stamped_by_third_of_refusedThrice :
    ∃ start db b, FreeRun step Db.initial rowFiled start ∧ FreeRun step start refusedThrice db ∧
      db.bulletins.get 1 = some b ∧ b.notifiedAt ≠ none := by
  have hexec : ((exec step Db.initial rowFiled).bind fun start =>
      (exec step start refusedThrice).map fun db =>
        (start.dispatches.keys, db.dispatches.keys, (db.bulletins.get 1).isSome,
          count step (closes 1) start refusedThrice)) = some ([1], [1], true, 3) := by
    decide +kernel
  obtain ⟨start, hstart, hrest⟩ := Option.bind_eq_some_iff.mp hexec
  obtain ⟨db, hdb, hfacts⟩ := Option.map_eq_some_iff.mp hrest
  simp only [Prod.mk.injEq] at hfacts
  obtain ⟨hkeys, hkeys', hsome, hcount⟩ := hfacts
  obtain ⟨b, hb⟩ := Option.isSome_iff_exists.mp hsome
  have hclosed : Closed 1 start db := by
    intro i d hd _
    rw [← Table.mem_keys_iff, hkeys, ← hkeys', Table.mem_keys_iff, hd]
    rfl
  have hrun := run_of_exec hstart
  have hrun' := run_of_exec hdb
  exact ⟨start, db, b, hrun, hrun', hb, stamped_by_third hrun hrun' hb hclosed hcount.ge⟩

end TigerDuck.Bulletins.DeviceDispatch
