import TigerDuck.Devices.PushTokens
import TigerDuck.Sync.Merge

/-!
# Anonymous registrations

The rows of `device_registrations` and the two requests of `server/routes/user_devices.py` that
anybody may aim at one: `register_anonymous_device`, which asks for no account, and the part of
`register_device` that links the row to the account of its caller. Each locks the row before it
reads it. What the rate limiters answer is part of the request; `attrs_type` and `apns_env` are
always empty.

A request is answered by who it is from only as far as it proves it: by a secret that hashes to
the row's, or by a token the row stores.

## Main results

- `secret_stays`: a bound secret stays bound.
- `presents_of_changed`: a row with a secret changes only for who presents it.
- `ownership`: no series of requests that prove nothing moves a row's deliveries elsewhere.
-/

namespace TigerDuck.Devices.Registrations

open Relational Transition

inductive DevicePlatform
  | apple
  | android
  deriving DecidableEq, Repr

inductive DeviceClass
  | iphone
  | ipad
  | mac
  | android
  | androidTablet
  deriving DecidableEq, Repr

/-- A row of `device_registrations`, under its `device_id`. A class that was never reported is
none. -/
structure DeviceRegistration where
  userId : String
  platform : DevicePlatform
  deviceClass : Option DeviceClass
  ptsTokenHex : String
  deviceTokenHex : Option String
  bundleId : String
  serverPushEnabled : Bool
  linkedUserId : Option Nat
  secretHash : Option String
  createdAt : Time
  updatedAt : Time
  deriving DecidableEq, Repr

structure AnonymousDeviceRequest where
  deviceId : String
  platform : DevicePlatform
  deviceClass : Option DeviceClass
  pushToken : Option String
  bundleId : String
  serverPushEnabled : Option Bool
  deviceSecret : Option String

/-- What `_may_link` reads of a `DeviceRegisterV3Request`. -/
structure DeviceRegisterRequest where
  clientDeviceId : String
  pushToken : Option String
  deviceSecret : Option String

structure AnonymousDeviceResponse where
  deviceId : String
  registered : Bool
  deriving DecidableEq, Repr

/-- `check_device_class`, of the platforms an anonymous device has. -/
def checkDeviceClass : DevicePlatform → Option DeviceClass → Bool
  | _, none => true
  | .apple, some c => c = .iphone || c = .ipad || c = .mac
  | .android, some c => c = .android || c = .androidTablet

/-- The pattern of a `DeviceSecret`. -/
def isDeviceSecret (text : String) : Bool :=
  text.length = 43 && text.toList.all fun c =>
    ('A' ≤ c && c ≤ 'Z') || ('a' ≤ c && c ≤ 'z') || ('0' ≤ c && c ≤ '9') ||
      c = '_' || c = '-'

/-- The lengths and the pattern of the fields, and `device_class_fits_platform`. -/
def AnonymousDeviceRequest.valid (payload : AnonymousDeviceRequest) : Bool :=
  fits 8 59 payload.deviceId && checkDeviceClass payload.platform payload.deviceClass &&
    payload.pushToken.all (fits 0 512) && fits 0 128 payload.bundleId &&
      payload.deviceSecret.all isDeviceSecret

def DeviceRegisterRequest.valid (payload : DeviceRegisterRequest) : Bool :=
  fits 1 128 payload.clientDeviceId && payload.pushToken.all (fits 1 512) &&
    payload.deviceSecret.all isDeviceSecret

namespace DeviceRegistration

/-- `_delivery_token`, when there is one. -/
def deliveryToken (row : DeviceRegistration) : Option String :=
  match row.platform with
  | .android => some row.ptsTokenHex |>.filter (· ≠ "")
  | .apple => row.deviceTokenHex.filter (· ≠ "")

/-- `_stored_tokens`. -/
def storedTokens (row : DeviceRegistration) : List String :=
  (row.deviceTokenHex.toList ++ [row.ptsTokenHex]).filter (· ≠ "")

/-- `_secret_matches`. -/
def secretMatches (sha256 : String → String) (row : DeviceRegistration) (secret : Option String) :
    Bool :=
  secret.any fun secret => row.secretHash = some (sha256 secret)

/-- `_holds_token`. -/
def holdsToken (row : DeviceRegistration) (token : String) : Bool := row.storedTokens.contains token

end DeviceRegistration

/-- What `_anonymous_access` answers. -/
inductive Access
  | owner
  | claim
  | limited
  | secretMissing
  | secretMismatch
  | tokenUnproven
  | secretRequired
  | platformChange
  deriving DecidableEq, Repr

/-- `_ANONYMOUS_GRANTS`. -/
def Access.grants : Access → Bool
  | .owner | .claim | .limited => true
  | _ => false

/-- The token of the request, if it names one. -/
def AnonymousDeviceRequest.token (payload : AnonymousDeviceRequest) : Option String :=
  payload.pushToken.filter (· ≠ "")

/-- `_anonymous_access`. -/
def anonymousAccess (sha256 : String → String) (row : DeviceRegistration)
    (payload : AnonymousDeviceRequest) (required : Bool) : Access :=
  match row.secretHash, payload.deviceSecret with
  | some _, none => .secretMissing
  | some _, some secret =>
    if row.secretMatches sha256 (some secret) then .owner else .secretMismatch
  | none, secret =>
    if secret.isSome && row.deliveryToken.isNone then .claim
    else
      match secret, payload.token with
      | some _, some token => if row.holdsToken token then .claim else .tokenUnproven
      | _, _ =>
        if required then .secretRequired
        else if payload.platform ≠ row.platform then .platformChange
        else .limited

/-- The row that a request without one creates. -/
def newRow (sha256 : String → String) (payload : AnonymousDeviceRequest) (now : Time) :
    DeviceRegistration where
  userId := "anon-" ++ payload.deviceId
  platform := payload.platform
  deviceClass := payload.deviceClass
  ptsTokenHex := if payload.platform = .android then payload.token.getD "" else ""
  deviceTokenHex := if payload.platform = .android then none else payload.token
  bundleId := payload.bundleId
  serverPushEnabled := payload.serverPushEnabled.getD true
  linkedUserId := none
  secretHash := payload.deviceSecret.map sha256
  createdAt := now
  updatedAt := now

/-- The row of a request that is granted `access`. -/
def grantedRow (sha256 : String → String) (row : DeviceRegistration)
    (payload : AnonymousDeviceRequest) (access : Access) (now : Time) : DeviceRegistration :=
  -- Without a secret, only a row with no delivery token takes one.
  let token := if access ≠ .limited ∨ row.deliveryToken = none then payload.token else none
  { row with
    secretHash := if access = .claim then payload.deviceSecret.map sha256 else row.secretHash
    ptsTokenHex :=
      if payload.platform = .android then token.getD row.ptsTokenHex else row.ptsTokenHex
    deviceTokenHex :=
      if payload.platform = .android then row.deviceTokenHex else token.or row.deviceTokenHex
    platform := payload.platform
    deviceClass := payload.deviceClass.or row.deviceClass
    serverPushEnabled := payload.serverPushEnabled.getD row.serverPushEnabled
    updatedAt := now }

/-- `_refuse_secret`. -/
def deviceSecretInvalid : HttpError := ⟨403, "device_secret_invalid"⟩

/-- `register_anonymous_device`; `allowed` is what the two limiters answer. -/
def registerAnonymousDevice (sha256 : String → String) (rows : Table String DeviceRegistration)
    (payload : AnonymousDeviceRequest) (required allowed : Bool) (now : Time) :
    Except HttpError (Table String DeviceRegistration × AnonymousDeviceResponse) :=
  if !allowed then .error ⟨429, "too_many_registration_attempts"⟩
  else if payload.deviceSecret.isNone && required then .error deviceSecretInvalid
  else
    let answer : AnonymousDeviceResponse := ⟨payload.deviceId, true⟩
    match rows.get payload.deviceId with
    | none => .ok (rows.set payload.deviceId (newRow sha256 payload now), answer)
    | some row =>
      let access := anonymousAccess sha256 row payload required
      if access.grants then
        .ok (rows.set payload.deviceId (grantedRow sha256 row payload access now), answer)
      else .error deviceSecretInvalid

/-- `_may_link`. -/
def mayLink (sha256 : String → String) (row : DeviceRegistration)
    (payload : DeviceRegisterRequest) : Bool :=
  match row.secretHash with
  | some _ => row.secretMatches sha256 payload.deviceSecret
  | none => payload.pushToken.any row.holdsToken

/-- The link of `register_device`. The row's `updated_at` moves when the link does. -/
def linkAnonymous (sha256 : String → String) (rows : Table String DeviceRegistration)
    (payload : DeviceRegisterRequest) (userId : Nat) (now : Time) :
    Table String DeviceRegistration :=
  match rows.get payload.clientDeviceId with
  | some row =>
    if mayLink sha256 row payload ∧ row.linkedUserId ≠ some userId then
      rows.set payload.clientDeviceId { row with linkedUserId := some userId, updatedAt := now }
    else rows
  | none => rows

/-- A request, with the setting `device_secret_required` as it is then. -/
inductive Label
  | anonymous (payload : AnonymousDeviceRequest) (required allowed : Bool) (now : Time)
  | register (payload : DeviceRegisterRequest) (userId : Nat) (now : Time)

/-- One request. One that is refused leaves the rows as they are. -/
def step (sha256 : String → String) (rows : Table String DeviceRegistration) :
    Label → Option (Table String DeviceRegistration)
  | .anonymous payload required allowed now =>
    if payload.valid then
      match registerAnonymousDevice sha256 rows payload required allowed now with
      | .ok (rows, _) => some rows
      | .error _ => some rows
    else none
  | .register payload userId now =>
    if payload.valid then some (linkAnonymous sha256 rows payload userId now) else none

/-! ### What a request proves -/

/-- The row the request is about. -/
def Label.deviceId : Label → String
  | .anonymous payload _ _ _ => payload.deviceId
  | .register payload _ _ => payload.clientDeviceId

def Label.secret : Label → Option String
  | .anonymous payload _ _ _ => payload.deviceSecret
  | .register payload _ _ => payload.deviceSecret

def Label.token : Label → Option String
  | .anonymous payload _ _ _ => payload.token
  | .register payload _ _ => payload.pushToken

/-- The request presents the secret the row has bound. -/
def Label.PresentsSecret (sha256 : String → String) (row : DeviceRegistration) (l : Label) :
    Prop :=
  ∃ secret, l.secret = some secret ∧ row.secretHash = some (sha256 secret)

/-- The request names a token the row stores. -/
def Label.PresentsToken (row : DeviceRegistration) (l : Label) : Prop :=
  ∃ token, l.token = some token ∧ token ∈ row.storedTokens

/-- A request about the device from a party that knows neither its secret nor a token of it. -/
def Ignorant (sha256 : String → String) (deviceId : String)
    (rows : Table String DeviceRegistration) (l : Label) : Prop :=
  l.deviceId = deviceId → ∀ row, rows.get deviceId = some row →
    ¬ l.PresentsSecret sha256 row ∧ ¬ l.PresentsToken row

/-! ### What a request makes of a row -/

variable {sha256 : String → String} {rows rows' : Table String DeviceRegistration}
  {deviceId : String} {row row' : DeviceRegistration} {l : Label}

/-- What a request may make of the row of a device, by what it has proved. -/
inductive Effect (sha256 : String → String) (deviceId : String) (l : Label)
    (row row' : DeviceRegistration) : Prop
  | unchanged (h : row' = row)
  /-- The owner changes it. -/
  | owned (hid : l.deviceId = deviceId) (hsecret : l.PresentsSecret sha256 row)
      (hhash : row'.secretHash = row.secretHash)
  /-- A row without a secret binds one. -/
  | claimed (hid : l.deviceId = deviceId) (hfree : row.secretHash = none)
      (hproof : l.PresentsToken row ∨ row.deliveryToken = none)
  /-- A row without a secret takes what needs no proof. -/
  | limited (hid : l.deviceId = deviceId) (hfree : row.secretHash = none)
      (hhash : row'.secretHash = none) (hplatform : row'.platform = row.platform)
      (htokens : row.deliveryToken ≠ none →
        row'.ptsTokenHex = row.ptsTokenHex ∧ row'.deviceTokenHex = row.deviceTokenHex)
  /-- A row without a secret is linked by one of its tokens. -/
  | linked (hid : l.deviceId = deviceId) (hfree : row.secretHash = none)
      (hproof : l.PresentsToken row) (hhash : row'.secretHash = none)

/-- What the answer of `_anonymous_access` stands for. -/
theorem access_cases {payload : AnonymousDeviceRequest} {required allowed : Bool} {now : Time}
    (hgrants : (anonymousAccess sha256 row payload required).grants = true) :
    Effect sha256 payload.deviceId (.anonymous payload required allowed now) row
      (grantedRow sha256 row payload (anonymousAccess sha256 row payload required) now) := by
  unfold anonymousAccess at hgrants ⊢
  cases hbound : row.secretHash with
  | some hash =>
    cases hsecret : payload.deviceSecret with
    | none =>
      simp only [hbound, hsecret] at hgrants
      cases hgrants
    | some secret =>
      simp only [hbound, hsecret] at hgrants ⊢
      split at hgrants
      next hmatches =>
        rw [if_pos hmatches]
        refine .owned rfl ⟨secret, hsecret, ?_⟩ rfl
        simpa [DeviceRegistration.secretMatches] using hmatches
      next => cases hgrants
  | none =>
    simp only [hbound] at hgrants ⊢
    by_cases hnew : (payload.deviceSecret.isSome && row.deliveryToken.isNone) = true
    · rw [if_pos hnew]
      have hnone := Option.isNone_iff_eq_none.mp (Bool.and_eq_true_iff.mp hnew).2
      exact .claimed rfl hbound (.inr hnone)
    · rw [if_neg hnew] at hgrants ⊢
      split at hgrants
      next secret token hsecret htoken =>
        -- A secret with a token binds where the row stores the token.
        split at hgrants
        next hholds =>
          refine .claimed rfl hbound (.inl ⟨token, htoken, ?_⟩)
          simpa [DeviceRegistration.holdsToken] using hholds
        next => cases hgrants
      next =>
        split at hgrants
        · cases hgrants
        next hoptional =>
          split at hgrants
          · cases hgrants
          next hplatform =>
            rw [if_neg hoptional, if_neg hplatform]
            refine .limited rfl hbound hbound (not_not.mp hplatform) fun hdelivery => ?_
            simp [grantedRow, hdelivery]

theorem register_effect {payload : AnonymousDeviceRequest} {required allowed : Bool} {now : Time}
    {answer : AnonymousDeviceResponse} (hrow : rows.get deviceId = some row)
    (hregister : registerAnonymousDevice sha256 rows payload required allowed now =
      .ok (rows', answer)) :
    ∃ row', rows'.get deviceId = some row' ∧
      Effect sha256 deviceId (.anonymous payload required allowed now) row row' := by
  unfold registerAnonymousDevice at hregister
  split at hregister
  · cases hregister
  split at hregister
  · cases hregister
  dsimp only at hregister
  split at hregister
  next hnone =>
    -- A new row is that of another device.
    cases hregister
    have hother : deviceId ≠ payload.deviceId := by
      rintro rfl
      rw [hrow] at hnone
      cases hnone
    exact ⟨row, by rw [Table.get_set, if_neg hother, hrow], .unchanged rfl⟩
  next old hold =>
    split at hregister
    next hgrants =>
      cases hregister
      by_cases hid : deviceId = payload.deviceId
      · subst hid
        obtain rfl : row = old := Option.some.inj (hrow.symm.trans hold)
        exact ⟨_, by rw [Table.get_set, if_pos rfl], access_cases hgrants⟩
      · exact ⟨row, by rw [Table.get_set, if_neg hid, hrow], .unchanged rfl⟩
    next => cases hregister

theorem link_effect (payload : DeviceRegisterRequest) (userId : Nat) (now : Time)
    (hrow : rows.get deviceId = some row) :
    ∃ row', (linkAnonymous sha256 rows payload userId now).get deviceId = some row' ∧
      Effect sha256 deviceId (.register payload userId now) row row' := by
  unfold linkAnonymous
  split
  next old hold =>
    split
    next hlinks =>
      by_cases hid : deviceId = payload.clientDeviceId
      · subst hid
        obtain rfl : row = old := Option.some.inj (hrow.symm.trans hold)
        refine ⟨_, by rw [Table.get_set, if_pos rfl], ?_⟩
        have hmay := hlinks.1
        unfold mayLink at hmay
        split at hmay
        next hash hbound =>
          obtain ⟨secret, hsecret, hmatches⟩ := (Option.any_eq_true _ _).mp hmay
          exact .owned rfl ⟨secret, hsecret, of_decide_eq_true hmatches⟩ rfl
        next hfree =>
          obtain ⟨token, htoken, hholds⟩ := (Option.any_eq_true _ _).mp hmay
          exact .linked rfl hfree ⟨token, htoken, List.contains_iff_mem.mp hholds⟩ hfree
      · exact ⟨row, by rw [Table.get_set, if_neg hid, hrow], .unchanged rfl⟩
    next => exact ⟨row, hrow, .unchanged rfl⟩
  next => exact ⟨row, hrow, .unchanged rfl⟩

/-- Every row stays, and a request changes it as far as it has proved whose it is. -/
theorem step_effect (hrow : rows.get deviceId = some row)
    (hstep : step sha256 rows l = some rows') :
    ∃ row', rows'.get deviceId = some row' ∧ Effect sha256 deviceId l row row' := by
  cases l with
  | anonymous payload required allowed now =>
    simp only [step] at hstep
    split at hstep
    · split at hstep
      next hregister =>
        cases hstep
        exact register_effect hrow hregister
      next =>
        cases hstep
        exact ⟨row, hrow, .unchanged rfl⟩
    · cases hstep
  | register payload userId now =>
    simp only [step] at hstep
    split at hstep <;> cases hstep
    exact link_effect payload userId now hrow


/-! ### Ownership -/

/-- A bound secret stays bound. -/
theorem secret_stays {hash : String} (hrow : rows.get deviceId = some row)
    (hhash : row.secretHash = some hash) (hstep : step sha256 rows l = some rows') :
    ∃ row', rows'.get deviceId = some row' ∧ row'.secretHash = some hash := by
  obtain ⟨row', hrow', heffect⟩ := step_effect hrow hstep
  refine ⟨row', hrow', ?_⟩
  cases heffect with
  | unchanged h => rw [h, hhash]
  | owned _ _ hkept => rw [hkept, hhash]
  -- The other requests are about a row without a secret.
  | claimed _ hfree => simp [hfree] at hhash
  | limited _ hfree => simp [hfree] at hhash
  | linked _ hfree => simp [hfree] at hhash

/-- A row with a secret changes only for who presents it. -/
theorem presents_of_changed (hrow : rows.get deviceId = some row)
    (hbound : row.secretHash ≠ none) (hstep : step sha256 rows l = some rows')
    (hchanged : rows'.get deviceId ≠ some row) :
    l.deviceId = deviceId ∧ l.PresentsSecret sha256 row := by
  obtain ⟨row', hrow', heffect⟩ := step_effect hrow hstep
  cases heffect with
  | unchanged h => exact absurd (h ▸ hrow') hchanged
  | owned hid hsecret => exact ⟨hid, hsecret⟩
  | claimed _ hfree => exact absurd hfree hbound
  | limited _ hfree => exact absurd hfree hbound
  | linked _ hfree => exact absurd hfree hbound

/-- A row as it is for the pushes it takes. -/
structure SameTarget (row row' : DeviceRegistration) : Prop where
  platform : row'.platform = row.platform
  ptsTokenHex : row'.ptsTokenHex = row.ptsTokenHex
  deviceTokenHex : row'.deviceTokenHex = row.deviceTokenHex

theorem SameTarget.deliveryToken (h : SameTarget row row') :
    row'.deliveryToken = row.deliveryToken := by
  unfold DeviceRegistration.deliveryToken
  rw [h.platform, h.ptsTokenHex, h.deviceTokenHex]

/-- A request that proves nothing leaves the target of a row's pushes alone. -/
theorem sameTarget_of_ignorant (hrow : rows.get deviceId = some row)
    (hdelivery : row.deliveryToken ≠ none) (hignorant : Ignorant sha256 deviceId rows l)
    (hstep : step sha256 rows l = some rows') :
    ∃ row', rows'.get deviceId = some row' ∧ SameTarget row row' := by
  obtain ⟨row', hrow', heffect⟩ := step_effect hrow hstep
  refine ⟨row', hrow', ?_⟩
  cases heffect with
  | unchanged h =>
    subst h
    exact ⟨rfl, rfl, rfl⟩
  | owned hid hsecret => exact absurd hsecret (hignorant hid row hrow).1
  | claimed hid _ hproof =>
    rcases hproof with htoken | hnone
    · exact absurd htoken (hignorant hid row hrow).2
    · exact absurd hnone hdelivery
  | limited _ _ _ hplatform htokens =>
    obtain ⟨hpts, hdevice⟩ := htokens hdelivery
    exact ⟨hplatform, hpts, hdevice⟩
  | linked hid _ htoken => exact absurd htoken (hignorant hid row hrow).2

/-- **An anonymous device belongs to who holds its secret.** Over any run: a bound hash stays; a
row with one changes only in a request about its device that presents a secret of that hash, which
is the secret that was bound unless two secrets have one hash; and from then on, as long as no
request about the device presents its secret or a token it stores, its pushes go where they went,
on the platform they went to. -/
theorem ownership {ls : List Label} {start : Table String DeviceRegistration}
    (hrun : FreeRun (step sha256) start ls rows) :
    (∀ deviceId row hash, start.get deviceId = some row → row.secretHash = some hash →
      ∃ row', rows.get deviceId = some row' ∧ row'.secretHash = some hash) ∧
    (∀ l rows', step sha256 rows l = some rows' →
      ∀ deviceId row, rows.get deviceId = some row → row.secretHash ≠ none →
        rows'.get deviceId ≠ some row →
        l.deviceId = deviceId ∧ l.PresentsSecret sha256 row ∧
          (Function.Injective sha256 → ∀ bound, row.secretHash = some (sha256 bound) →
            l.secret = some bound)) ∧
    ∀ deviceId row, rows.get deviceId = some row → row.deliveryToken ≠ none →
      ∀ ls' rows', Run (step sha256) (Ignorant sha256 deviceId) rows ls' rows' →
        ∃ row', rows'.get deviceId = some row' ∧ row'.platform = row.platform ∧
          row'.deliveryToken = row.deliveryToken := by
  refine ⟨?_, ?_, ?_⟩
  · intro deviceId row hash hrow hhash
    refine hrun.invariant
      (fun rows => ∃ row', rows.get deviceId = some row' ∧ row'.secretHash = some hash)
      ⟨row, hrow, hhash⟩ ?_
    rintro _ _ _ ⟨row', hrow', hhash'⟩ _ hstep
    exact secret_stays hrow' hhash' hstep
  · intro l rows' hstep deviceId row hrow hbound hchanged
    obtain ⟨hid, secret, hsecret, hhash⟩ := presents_of_changed hrow hbound hstep hchanged
    refine ⟨hid, ⟨secret, hsecret, hhash⟩, fun hinjective bound hsame => ?_⟩
    rw [hsecret, hinjective (Option.some.inj (hhash.symm.trans hsame))]
  · intro deviceId row hrow hdelivery ls' rows' hquiet
    -- The target stays, so the tokens to know stay the same.
    obtain ⟨row', hrow', hsame⟩ := hquiet.invariant
      (fun rows => ∃ row', rows.get deviceId = some row' ∧ SameTarget row row')
      ⟨row, hrow, rfl, rfl, rfl⟩ (by
        rintro _ _ _ ⟨row', hrow', hsame⟩ hignorant hstep
        obtain ⟨row'', hrow'', hsame'⟩ := sameTarget_of_ignorant hrow'
          (hsame.deliveryToken ▸ hdelivery) hignorant hstep
        exact ⟨row'', hrow'', hsame'.platform.trans hsame.platform,
          hsame'.ptsTokenHex.trans hsame.ptsTokenHex,
          hsame'.deviceTokenHex.trans hsame.deviceTokenHex⟩)
    exact ⟨row', hrow', hsame.platform, hsame.deliveryToken⟩


/-- SHA-256 of the secrets below. -/
def digest (text : String) : String :=
  if text = "aaaaaaaaaaaaaaaaaaaaaaaaaaaaaaaaaaaaaaaaaaa" then
    "66d34fba71f8f450f7e45598853e53bfc23bbd129027cbb131a2f4ffd7878cd0"
  else "f01b57226261ae3756b93936e1c4e6b849f9a5b0933fa3b91843bf4195b9d964"

/-- The phone registers with its secret. -/
def phoneRegisters : Label :=
  .anonymous ⟨"phone-01", .apple, some .iphone, some "80ab", "app", none,
    some "aaaaaaaaaaaaaaaaaaaaaaaaaaaaaaaaaaaaaaaaaaa"⟩ false true 10

/-- Somebody else claims the device for a phone of his own. -/
def strangerClaims : Label :=
  .anonymous ⟨"phone-01", .android, none, some "dead", "app", none,
    some "bbbbbbbbbbbbbbbbbbbbbbbbbbbbbbbbbbbbbbbbbbb"⟩ false true 20

/-- The pushes of the phone still go to its own token. -/
theorem ownership_of_phone : ∃ rows row rows' row',
    FreeRun (step digest) Table.empty [phoneRegisters] rows ∧
      rows.get "phone-01" = some row ∧ row.deliveryToken = some "80ab" ∧
      Run (step digest) (Ignorant digest "phone-01") rows [strangerClaims] rows' ∧
      rows'.get "phone-01" = some row' ∧ row'.platform = row.platform ∧
      row'.deliveryToken = row.deliveryToken := by
  obtain ⟨rows, row, rows', hexec, hrow, hdelivery, hhash, hstored, hstep⟩ :
      ∃ rows row rows', exec (step digest) Table.empty [phoneRegisters] = some rows ∧
        rows.get "phone-01" = some row ∧ row.deliveryToken = some "80ab" ∧
        row.secretHash =
          some "66d34fba71f8f450f7e45598853e53bfc23bbd129027cbb131a2f4ffd7878cd0" ∧
        row.storedTokens = ["80ab"] ∧ step digest rows strangerClaims = some rows' :=
    ⟨_, _, _, rfl, rfl, rfl, rfl, rfl, rfl⟩
  have hignorant : Ignorant digest "phone-01" rows strangerClaims := by
    intro _ row' hrow'
    obtain rfl := Option.some.inj (hrow.symm.trans hrow')
    constructor
    · rintro ⟨secret, hsecret, hmatches⟩
      cases hsecret
      rw [hhash] at hmatches
      exact absurd hmatches (by decide)
    · rintro ⟨token, htoken, hmem⟩
      rw [hstored] at hmem
      cases htoken
      exact absurd hmem (by decide)
  have hrun := run_of_exec hexec
  obtain ⟨row', hrow', hplatform, htoken⟩ := (ownership hrun).2.2 "phone-01" row hrow
    (by rw [hdelivery]; exact nofun) _ _ (Run.single hignorant hstep)
  exact ⟨rows, row, rows', row', hrun, hrow, hdelivery, Run.single hignorant hstep, hrow',
    hplatform, htoken⟩


end TigerDuck.Devices.Registrations
