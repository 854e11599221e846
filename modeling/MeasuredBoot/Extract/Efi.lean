import MeasuredBoot.Extract.Grub

/-!
The EFI extractors. `efiState` walks the EFI-application and ExitBootServices registers until
the ExitBootServices action and, only if it saw one, reports the applications it collected and
the drivers that `efiDriverState` collects over the whole log.
-/

namespace MeasuredBoot

/-- The state of the loop of `EfiDriverState`. -/
structure DriverScan where
  seenSeparator : Bool
  efiDriverStates : List Bytes
  efiRuntimeDriverStates : List Bytes

/-- One pass of the loop of `EfiDriverState`. -/
def efiDriverStep (helpers : Helpers) (cfg : RegisterConfig) (st : DriverScan) (e : Event) :
    Except GoError (Flow DriverScan) :=
  if e.index ≠ cfg.firmwareDriverIdx then .ok (.next st) else
  match untrustedParseEventType e.type with
  | .error err => .error (.failed s!"unrecognised event type: {err.text}")
  | .ok et =>
      let digestVerify := helpers.digestEquals e e.data
      if et = EventType.separator then
        if st.seenSeparator then .error (.failed s!"duplicate separator at event {e.num}")
        else if e.data ≠ [0, 0, 0, 0] then
          .error (.failed
            s!"invalid separator data at event {e.num}: {formatSlice (e.data.map toString)}")
        else match digestVerify with
          | some err => .error (.failed s!"invalid separator digest at event {e.num}: {err.text}")
          | none => .ok (.next { st with seenSeparator := true })
      else if et = EventType.efiBootServicesDriver then
        if !st.seenSeparator then
          match helpers.parseEFIImageLoad e.data with
          | some err => .error (.failed
              s!"failed parsing EFI image load at boot services driver event {e.num}: {err.text}")
          | none => .ok (.next { st with efiDriverStates := st.efiDriverStates ++ [e.digest] })
        else .ok (.next st)
      else if et = EventType.efiRuntimeServicesDriver then
        if !st.seenSeparator then
          match helpers.parseEFIImageLoad e.data with
          | some err => .error (.failed
              s!"failed parsing EFI image load at boot services driver event {e.num}: {err.text}")
          | none => .ok (.next
              { st with efiRuntimeDriverStates := st.efiRuntimeDriverStates ++ [e.digest] })
        else .ok (.next st)
      else .ok (.next st)

/-- `EfiDriverState`. -/
def efiDriverState (helpers : Helpers) (events : List Event) (cfg : RegisterConfig) :
    Except GoError EfiState := do
  let st ← forRange (efiDriverStep helpers cfg) ⟨false, [], []⟩ events
  pure { apps := [], bootServicesDrivers := st.efiDriverStates,
         runtimeServicesDrivers := st.efiRuntimeDriverStates }

/-- The state of the loop of `EfiState`. -/
structure EfiScan where
  efiAppStates : List Bytes
  seenSeparator4 : Bool
  seenSeparator5 : Bool
  seenCallingEfiApp : Bool
  seenExitBootServices : Bool

/-- The part of a pass of `EfiState` for an event on the EFI-application register. -/
def efiAppEvent (cfg : RegisterConfig) (callingEFIAppDigest : Bytes) (separatorInfo : SeparatorInfo)
    (st : EfiScan) (event : Event) : Except GoError EfiScan := do
  let index := event.index
  let evtType := event.type
  let st ← (if callingEFIAppDigest = event.digest then
      if evtType ≠ EventType.efiAction then .error (.failed
        s!"{cfg.name}{index} contains CallingEFIApp event but non EFIAction type: {evtType}")
      else if !event.digestVerified then
        .error (.failed s!"unverified CallingEFIApp digest for {cfg.name}{index}")
      else if st.seenCallingEfiApp then
        .error (.failed s!"found duplicate CallingEFIApp event in {cfg.name}{index}")
      else if st.seenSeparator4 then
        .error (.failed s!"found CallingEFIApp event in {cfg.name}{index} after separator event")
      else .ok { st with seenCallingEfiApp := true }
    else .ok st)
  let st ← (if evtType = EventType.efiBootServicesApplication then
      if !st.seenCallingEfiApp then .error (.failed
        s!"found EFIBootServicesApplication in {cfg.name}{index} before CallingEFIApp event")
      else .ok { st with efiAppStates := st.efiAppStates ++ [event.digest] }
    else .ok st)
  let isSeparator ← checkIfValidSeparator event separatorInfo
  if isSeparator then
    if st.seenSeparator4 then
      .error (.failed s!"found duplicate Separator event in {cfg.name}{cfg.efiAppIdx}")
    else pure { st with seenSeparator4 := true }
  else pure st

/-- The part of a pass of `EfiState` for an event on the ExitBootServices register: it breaks
at the ExitBootServices action. -/
def exitBootServicesEvent (cfg : RegisterConfig) (exitBootSvcDigest : Bytes)
    (separatorInfo : SeparatorInfo) (st : EfiScan) (event : Event) : Except GoError (Flow EfiScan) :=
  let index := event.index
  let evtType := event.type
  if exitBootSvcDigest = event.digest then
    if evtType ≠ EventType.efiAction then .error (.failed
      s!"{cfg.name}{index} contains ExitBootServices event but non EFIAction type: {evtType}")
    else if !event.digestVerified then
      .error (.failed s!"unverified ExitBootServices digest for {cfg.name}{index}")
    else .ok (.stop { st with seenExitBootServices := true })
  else do
    let isSeparator ← checkIfValidSeparator event separatorInfo
    if isSeparator then
      if st.seenSeparator5 then
        .error (.failed s!"found duplicate Separator event in {cfg.name}{cfg.exitBootServicesIdx}")
      else pure (.next { st with seenSeparator5 := true })
    else pure (.next st)

/-- One pass of the loop of `EfiState`. On a configuration whose two registers coincide, an
event goes through both parts. -/
def efiStep (cfg : RegisterConfig) (callingEFIAppDigest exitBootSvcDigest : Bytes)
    (separatorInfo : SeparatorInfo) (st : EfiScan) (event : Event) : Except GoError (Flow EfiScan) :=
  if event.index ≠ cfg.efiAppIdx ∧ event.index ≠ cfg.exitBootServicesIdx then .ok (.next st)
  else do
    let st ← (if event.index = cfg.efiAppIdx then
        efiAppEvent cfg callingEFIAppDigest separatorInfo st event
      else .ok st)
    if event.index = cfg.exitBootServicesIdx then
      exitBootServicesEvent cfg exitBootSvcDigest separatorInfo st event
    else pure (.next st)

/-- `EfiState`: no state unless the loop saw ExitBootServices. -/
def efiState (H : Hasher) (hash : Hash) (helpers : Helpers) (events : List Event)
    (cfg : RegisterConfig) : Except GoError (Option EfiState) := do
  let separatorInfo := getSeparatorInfo H hash
  let callingEFIAppDigest := H.sum hash callingEFIApplication
  let exitBootSvcDigest := H.sum hash exitBootServicesInvocation
  let st ← forRange (efiStep cfg callingEFIAppDigest exitBootSvcDigest separatorInfo)
    ⟨[], false, false, false, false⟩ events
  if st.seenExitBootServices then
    let efiDriver ← efiDriverState helpers events cfg
    pure (some { apps := st.efiAppStates, bootServicesDrivers := efiDriver.bootServicesDrivers,
                 runtimeServicesDrivers := efiDriver.runtimeServicesDrivers })
  else pure none

/-! ### The driver scan -/

/-- The digests of the events of type `driverType` on the driver register before that
register's first separator-typed event. -/
def driverDigests (cfg : RegisterConfig) (driverType : Nat) (events : List Event) : List Bytes :=
  (((events.filter fun e => e.index = cfg.firmwareDriverIdx).takeWhile
    fun e => e.type ≠ EventType.separator).filter fun e => e.type = driverType).map Event.digest

theorem driverDigests_cons (cfg : RegisterConfig) (driverType : Nat) (e : Event) (rest : List Event) :
    driverDigests cfg driverType (e :: rest) =
      if e.index = cfg.firmwareDriverIdx then
        if e.type = EventType.separator then []
        else (if e.type = driverType then [e.digest] else []) ++ driverDigests cfg driverType rest
      else driverDigests cfg driverType rest := by
  by_cases onDriver : e.index = cfg.firmwareDriverIdx
  · by_cases separator : e.type = EventType.separator
    · simp [driverDigests, onDriver, separator]
    · by_cases typed : e.type = driverType
      · subst typed; simp [driverDigests, onDriver, separator]
      · simp [driverDigests, onDriver, separator, typed]
  · simp [driverDigests, onDriver]

theorem untrustedParseEventType_eq_ok (eventType et : Nat)
    (parsed : untrustedParseEventType eventType = .ok et) : et = eventType := by
  unfold untrustedParseEventType at parsed
  split at parsed
  · exact (Except.ok.inj parsed).symm
  · cases parsed

/-- The state a pass of the driver scan leaves when it goes on, in the order of the source's
checks. -/
def driverScanned (cfg : RegisterConfig) (st : DriverScan) (e : Event) : DriverScan :=
  if e.index ≠ cfg.firmwareDriverIdx then st
  else if e.type = EventType.separator then { st with seenSeparator := true }
  else if e.type = EventType.efiBootServicesDriver then
    if !st.seenSeparator then { st with efiDriverStates := st.efiDriverStates ++ [e.digest] } else st
  else if e.type = EventType.efiRuntimeServicesDriver then
    if !st.seenSeparator then
      { st with efiRuntimeDriverStates := st.efiRuntimeDriverStates ++ [e.digest] }
    else st
  else st

theorem efiDriverStep_eq_ok (helpers : Helpers) (cfg : RegisterConfig) (st : DriverScan) (e : Event)
    {flow : Flow DriverScan} (passed : efiDriverStep helpers cfg st e = .ok flow) :
    flow = .next (driverScanned cfg st e) := by
  unfold efiDriverStep at passed
  unfold driverScanned
  by_cases off : e.index ≠ cfg.firmwareDriverIdx
  · rw [if_pos off] at passed ⊢
    exact (Except.ok.inj passed).symm
  rw [if_neg off] at passed ⊢
  cases parsed : untrustedParseEventType e.type with
  | error err => rw [parsed] at passed; cases passed
  | ok et =>
    rw [parsed] at passed
    obtain rfl := untrustedParseEventType_eq_ok _ _ parsed
    dsimp only at passed
    by_cases separator : e.type = EventType.separator
    · rw [if_pos separator] at passed ⊢
      by_cases seen : st.seenSeparator = true
      · rw [if_pos seen] at passed; cases passed
      rw [if_neg seen] at passed
      by_cases zero : e.data ≠ [0, 0, 0, 0]
      · rw [if_pos zero] at passed; cases passed
      rw [if_neg zero] at passed
      cases verify : helpers.digestEquals e e.data <;> rw [verify] at passed <;> cases passed
      rfl
    rw [if_neg separator] at passed ⊢
    by_cases boot : e.type = EventType.efiBootServicesDriver
    · rw [if_pos boot] at passed ⊢
      by_cases fresh : (!st.seenSeparator) = true
      · rw [if_pos fresh] at passed ⊢
        cases loaded : helpers.parseEFIImageLoad e.data <;> rw [loaded] at passed <;> cases passed
        rfl
      · rw [if_neg fresh] at passed ⊢
        exact (Except.ok.inj passed).symm
    rw [if_neg boot] at passed ⊢
    by_cases runtime : e.type = EventType.efiRuntimeServicesDriver
    · rw [if_pos runtime] at passed ⊢
      by_cases fresh : (!st.seenSeparator) = true
      · rw [if_pos fresh] at passed ⊢
        cases loaded : helpers.parseEFIImageLoad e.data <;> rw [loaded] at passed <;> cases passed
        rfl
      · rw [if_neg fresh] at passed ⊢
        exact (Except.ok.inj passed).symm
    rw [if_neg runtime] at passed ⊢
    exact (Except.ok.inj passed).symm

theorem driverScanned_fields (cfg : RegisterConfig) (st : DriverScan) (e : Event) :
    (driverScanned cfg st e).seenSeparator =
        (st.seenSeparator || decide (e.index = cfg.firmwareDriverIdx ∧ e.type = EventType.separator)) ∧
      (driverScanned cfg st e).efiDriverStates = st.efiDriverStates ++
        (if st.seenSeparator then [] else driverDigests cfg EventType.efiBootServicesDriver [e]) ∧
      (driverScanned cfg st e).efiRuntimeDriverStates = st.efiRuntimeDriverStates ++
        (if st.seenSeparator then [] else driverDigests cfg EventType.efiRuntimeServicesDriver [e]) := by
  have kinds : EventType.efiBootServicesDriver ≠ EventType.efiRuntimeServicesDriver := by decide
  have boot : EventType.efiBootServicesDriver ≠ EventType.separator := by decide
  have runtime : EventType.efiRuntimeServicesDriver ≠ EventType.separator := by decide
  unfold driverScanned
  by_cases onDriver : e.index = cfg.firmwareDriverIdx
  · by_cases separator : e.type = EventType.separator
    · simp [onDriver, separator, driverDigests]
    by_cases bootDriver : e.type = EventType.efiBootServicesDriver
    · cases seen : st.seenSeparator <;> simp [onDriver, bootDriver, boot, kinds, seen, driverDigests]
    by_cases runtimeDriver : e.type = EventType.efiRuntimeServicesDriver
    · cases seen : st.seenSeparator <;>
        simp [onDriver, runtimeDriver, runtime, Ne.symm kinds, seen, driverDigests]
    · simp [onDriver, separator, bootDriver, runtimeDriver, driverDigests]
  · simp [onDriver, driverDigests]

theorem efiDriverStep_eq_next (helpers : Helpers) (cfg : RegisterConfig) (st st' : DriverScan)
    (e : Event) (passed : efiDriverStep helpers cfg st e = .ok (.next st')) :
    st'.seenSeparator =
        (st.seenSeparator || decide (e.index = cfg.firmwareDriverIdx ∧ e.type = EventType.separator)) ∧
      st'.efiDriverStates = st.efiDriverStates ++
        (if st.seenSeparator then [] else driverDigests cfg EventType.efiBootServicesDriver [e]) ∧
      st'.efiRuntimeDriverStates = st.efiRuntimeDriverStates ++
        (if st.seenSeparator then [] else driverDigests cfg EventType.efiRuntimeServicesDriver [e]) := by
  obtain rfl := Flow.next.inj (efiDriverStep_eq_ok helpers cfg st e passed)
  exact driverScanned_fields cfg st e

theorem efiDriverStep_ne_stop (helpers : Helpers) (cfg : RegisterConfig) (st st' : DriverScan)
    (e : Event) : efiDriverStep helpers cfg st e ≠ .ok (.stop st') :=
  fun broke => nomatch efiDriverStep_eq_ok helpers cfg st e broke

theorem continues_efiDriverStep (helpers : Helpers) (cfg : RegisterConfig) {st st' : DriverScan}
    {events : List Event} (ran : Continues (efiDriverStep helpers cfg) st events st') :
    st'.efiDriverStates = st.efiDriverStates ++
        (if st.seenSeparator then [] else driverDigests cfg EventType.efiBootServicesDriver events) ∧
      st'.efiRuntimeDriverStates = st.efiRuntimeDriverStates ++
        (if st.seenSeparator then [] else driverDigests cfg EventType.efiRuntimeServicesDriver events) := by
  induction ran with
  | nil => simp [driverDigests]
  | @cons st st1 st2 e rest passed _ ih =>
      obtain ⟨seen, boot, runtime⟩ := efiDriverStep_eq_next helpers cfg st st1 e passed
      rw [ih.1, ih.2, boot, runtime, seen, driverDigests_cons, driverDigests_cons cfg _ e rest,
        driverDigests_cons cfg EventType.efiRuntimeServicesDriver e [],
        driverDigests_cons cfg EventType.efiRuntimeServicesDriver e rest]
      cases st.seenSeparator
      · by_cases onDriver : e.index = cfg.firmwareDriverIdx <;>
          by_cases separator : e.type = EventType.separator <;> simp [onDriver, separator, driverDigests]
      · simp

theorem efiDriverState_eq_ok (helpers : Helpers) (events : List Event) (cfg : RegisterConfig)
    (s : EfiState) (reported : efiDriverState helpers events cfg = .ok s) :
    s.bootServicesDrivers = driverDigests cfg EventType.efiBootServicesDriver events ∧
      s.runtimeServicesDrivers = driverDigests cfg EventType.efiRuntimeServicesDriver events := by
  simp only [efiDriverState, bind_eq_ok, pure, Except.pure, Except.ok.injEq] at reported
  obtain ⟨st, ran, rfl⟩ := reported
  rcases forRange_eq_ok _ _ _ ran with all | ⟨_, _, _, _, _, _, broke⟩
  · simpa using continues_efiDriverStep helpers cfg all
  · exact absurd broke (efiDriverStep_ne_stop _ _ _ _ _)

/-! ### The main loop, pass by pass -/

/-- The digests of the EFI applications on the EFI-application register, in log order. -/
def appDigests (cfg : RegisterConfig) (events : List Event) : List Bytes :=
  (events.filter fun e =>
    e.index = cfg.efiAppIdx ∧ e.type = EventType.efiBootServicesApplication).map Event.digest

/-- An event of the EFI-application register that carries the CallingEFIApp digest. -/
def IsCallingEvent (cfg : RegisterConfig) (callingEFIAppDigest : Bytes) (e : Event) : Prop :=
  e.index = cfg.efiAppIdx ∧ callingEFIAppDigest = e.digest

instance (cfg : RegisterConfig) (callingEFIAppDigest : Bytes) :
    DecidablePred (IsCallingEvent cfg callingEFIAppDigest) :=
  fun e => inferInstanceAs (Decidable (e.index = cfg.efiAppIdx ∧ callingEFIAppDigest = e.digest))

section Passes

variable (cfg : RegisterConfig) (callingEFIAppDigest exitBootSvcDigest : Bytes)
  (separatorInfo : SeparatorInfo)

theorem efiAppEvent_eq_ok (st st' : EfiScan) (e : Event)
    (passed : efiAppEvent cfg callingEFIAppDigest separatorInfo st e = .ok st') :
    (callingEFIAppDigest = e.digest → e.type = EventType.efiAction ∧ e.digestVerified = true ∧
      st.seenCallingEfiApp = false ∧ st.seenSeparator4 = false) ∧
    (e.type = EventType.efiBootServicesApplication → st.seenCallingEfiApp = true) ∧
    st'.efiAppStates = st.efiAppStates ++
      (if e.type = EventType.efiBootServicesApplication then [e.digest] else []) ∧
    st'.seenCallingEfiApp = (st.seenCallingEfiApp || decide (callingEFIAppDigest = e.digest)) ∧
    (st'.seenSeparator4 = true ↔
      st.seenSeparator4 = true ∨ checkIfValidSeparator e separatorInfo = .ok true) ∧
    st'.seenExitBootServices = st.seenExitBootServices := by
  simp only [efiAppEvent, bind_eq_ok] at passed
  obtain ⟨st1, calling, st2, app, isSeparator, checked, separator⟩ := passed
  have notApp : EventType.efiAction ≠ EventType.efiBootServicesApplication := by decide
  have first : (callingEFIAppDigest = e.digest → e.type = EventType.efiAction ∧
      e.digestVerified = true ∧ st.seenCallingEfiApp = false ∧ st.seenSeparator4 = false) ∧
      st1 = { st with
        seenCallingEfiApp := (st.seenCallingEfiApp || decide (callingEFIAppDigest = e.digest)) } := by
    by_cases found : callingEFIAppDigest = e.digest
    · rw [if_pos found] at calling
      obtain ⟨typed, calling⟩ := guard_eq_ok calling
      obtain ⟨verified, calling⟩ := guard_eq_ok calling
      obtain ⟨fresh, calling⟩ := guard_eq_ok calling
      obtain ⟨beforeSeparator, calling⟩ := guard_eq_ok calling
      cases calling
      simp only [ne_eq, Decidable.not_not, Bool.not_eq_true', Bool.not_eq_false,
        Bool.not_eq_true] at typed verified fresh beforeSeparator
      exact ⟨fun _ => ⟨typed, verified, fresh, beforeSeparator⟩, by simp [found, fresh]⟩
    · rw [if_neg found] at calling
      cases calling
      simp [found]
  obtain ⟨callingChecks, rfl⟩ := first
  have second : (e.type = EventType.efiBootServicesApplication →
      (st.seenCallingEfiApp || decide (callingEFIAppDigest = e.digest)) = true) ∧
      st2 = { st with
        seenCallingEfiApp := (st.seenCallingEfiApp || decide (callingEFIAppDigest = e.digest)),
        efiAppStates := (st.efiAppStates ++
          if e.type = EventType.efiBootServicesApplication then [e.digest] else []) } := by
    by_cases isApp : e.type = EventType.efiBootServicesApplication
    · rw [if_pos isApp] at app
      obtain ⟨seen, app⟩ := guard_eq_ok app
      cases app
      exact ⟨fun _ => by revert seen; cases st.seenCallingEfiApp <;> simp, by simp [isApp]⟩
    · rw [if_neg isApp] at app
      cases app
      simp [isApp]
  obtain ⟨appChecks, built⟩ := second
  refine ⟨callingChecks, fun isApp => ?_, ?_⟩
  · by_cases found : callingEFIAppDigest = e.digest
    · exact absurd ((callingChecks found).1 ▸ isApp) notApp
    · simpa [found] using appChecks isApp
  · have last : st' = { st2 with seenSeparator4 := st2.seenSeparator4 || isSeparator } := by
      cases isSeparator with
      | false => rw [if_neg Bool.false_ne_true] at separator; cases separator; simp
      | true =>
          rw [if_pos rfl] at separator
          obtain ⟨-, separator⟩ := guard_eq_ok separator
          cases separator; simp
    subst last built
    by_cases isApp : e.type = EventType.efiBootServicesApplication <;> simp [checked, isApp]

theorem exitBootServicesEvent_eq_next (st st' : EfiScan) (e : Event)
    (passed : exitBootServicesEvent cfg exitBootSvcDigest separatorInfo st e = .ok (.next st')) :
    exitBootSvcDigest ≠ e.digest ∧ st'.efiAppStates = st.efiAppStates ∧
      st'.seenCallingEfiApp = st.seenCallingEfiApp ∧ st'.seenSeparator4 = st.seenSeparator4 ∧
      st'.seenExitBootServices = st.seenExitBootServices := by
  unfold exitBootServicesEvent at passed
  by_cases found : exitBootSvcDigest = e.digest
  · rw [if_pos found] at passed
    obtain ⟨-, passed⟩ := guard_eq_ok passed
    obtain ⟨-, passed⟩ := guard_eq_ok passed
    cases passed
  rw [if_neg found, bind_eq_ok] at passed
  obtain ⟨isSeparator, -, separator⟩ := passed
  refine ⟨found, ?_⟩
  cases isSeparator with
  | false =>
      rw [if_neg Bool.false_ne_true] at separator
      cases separator
      exact ⟨rfl, rfl, rfl, rfl⟩
  | true =>
      rw [if_pos rfl] at separator
      obtain ⟨-, separator⟩ := guard_eq_ok separator
      cases separator
      exact ⟨rfl, rfl, rfl, rfl⟩

theorem exitBootServicesEvent_eq_stop (st st' : EfiScan) (e : Event)
    (broke : exitBootServicesEvent cfg exitBootSvcDigest separatorInfo st e = .ok (.stop st')) :
    exitBootSvcDigest = e.digest ∧ e.type = EventType.efiAction ∧ e.digestVerified = true ∧
      st' = { st with seenExitBootServices := true } := by
  unfold exitBootServicesEvent at broke
  by_cases found : exitBootSvcDigest = e.digest
  · rw [if_pos found] at broke
    obtain ⟨typed, broke⟩ := guard_eq_ok broke
    obtain ⟨verified, broke⟩ := guard_eq_ok broke
    cases broke
    exact ⟨found, not_not.1 typed, by simpa using verified, rfl⟩
  rw [if_neg found, bind_eq_ok] at broke
  obtain ⟨isSeparator, -, separator⟩ := broke
  cases isSeparator with
  | false =>
      rw [if_neg Bool.false_ne_true] at separator
      cases separator
  | true =>
      rw [if_pos rfl] at separator
      obtain ⟨-, separator⟩ := guard_eq_ok separator
      cases separator

theorem efiAppPart_eq_ok (st st1 : EfiScan) (e : Event)
    (app : (if e.index = cfg.efiAppIdx then efiAppEvent cfg callingEFIAppDigest separatorInfo st e
      else .ok st) = .ok st1) :
    st1.efiAppStates = st.efiAppStates ++ appDigests cfg [e] ∧
    st1.seenCallingEfiApp =
      (st.seenCallingEfiApp || decide (e.index = cfg.efiAppIdx ∧ callingEFIAppDigest = e.digest)) ∧
    (e.index = cfg.efiAppIdx → callingEFIAppDigest = e.digest → e.type = EventType.efiAction ∧
      e.digestVerified = true ∧ st.seenCallingEfiApp = false ∧ st.seenSeparator4 = false) ∧
    (e.index = cfg.efiAppIdx → e.type = EventType.efiBootServicesApplication →
      st.seenCallingEfiApp = true) ∧
    (st1.seenSeparator4 = true ↔ st.seenSeparator4 = true ∨
      (e.index = cfg.efiAppIdx ∧ checkIfValidSeparator e separatorInfo = .ok true)) ∧
    st1.seenExitBootServices = st.seenExitBootServices := by
  by_cases onApp : e.index = cfg.efiAppIdx
  · rw [if_pos onApp] at app
    obtain ⟨calling, isApp, apps, seen, separator, exited⟩ :=
      efiAppEvent_eq_ok cfg callingEFIAppDigest separatorInfo st st1 e app
    refine ⟨?_, by simp [seen, onApp], fun _ => calling, fun _ => isApp, by simp [separator, onApp],
      exited⟩
    by_cases typed : e.type = EventType.efiBootServicesApplication <;>
      simp [apps, appDigests, onApp, typed]
  · rw [if_neg onApp] at app
    cases app
    simp [appDigests, onApp]

theorem efiStep_eq_next (st st' : EfiScan) (e : Event)
    (passed : efiStep cfg callingEFIAppDigest exitBootSvcDigest separatorInfo st e = .ok (.next st')) :
    st'.efiAppStates = st.efiAppStates ++ appDigests cfg [e] ∧
    st'.seenCallingEfiApp =
      (st.seenCallingEfiApp || decide (e.index = cfg.efiAppIdx ∧ callingEFIAppDigest = e.digest)) ∧
    (e.index = cfg.efiAppIdx → callingEFIAppDigest = e.digest → e.type = EventType.efiAction ∧
      e.digestVerified = true ∧ st.seenCallingEfiApp = false ∧ st.seenSeparator4 = false) ∧
    (e.index = cfg.efiAppIdx → e.type = EventType.efiBootServicesApplication →
      st.seenCallingEfiApp = true) ∧
    (st'.seenSeparator4 = true ↔ st.seenSeparator4 = true ∨
      (e.index = cfg.efiAppIdx ∧ checkIfValidSeparator e separatorInfo = .ok true)) ∧
    (e.index = cfg.exitBootServicesIdx → exitBootSvcDigest ≠ e.digest) ∧
    st'.seenExitBootServices = st.seenExitBootServices := by
  unfold efiStep at passed
  by_cases skipped : e.index ≠ cfg.efiAppIdx ∧ e.index ≠ cfg.exitBootServicesIdx
  · rw [if_pos skipped] at passed
    cases passed
    simp [appDigests, skipped.1, skipped.2]
  rw [if_neg skipped, bind_eq_ok] at passed
  obtain ⟨st1, app, exit⟩ := passed
  obtain ⟨apps, seen, calling, isApp, separator, exited⟩ :=
    efiAppPart_eq_ok cfg callingEFIAppDigest separatorInfo st st1 e app
  by_cases onExit : e.index = cfg.exitBootServicesIdx
  · rw [if_pos onExit] at exit
    obtain ⟨notExit, sameApps, sameSeen, sameSeparator, sameExited⟩ :=
      exitBootServicesEvent_eq_next cfg exitBootSvcDigest separatorInfo st1 st' e exit
    exact ⟨sameApps ▸ apps, sameSeen ▸ seen, calling, isApp, sameSeparator ▸ separator,
      fun _ => notExit, sameExited ▸ exited⟩
  · rw [if_neg onExit] at exit
    cases exit
    exact ⟨apps, seen, calling, isApp, separator, fun absurd => (onExit absurd).elim, exited⟩

theorem efiStep_eq_stop (st st' : EfiScan) (e : Event)
    (broke : efiStep cfg callingEFIAppDigest exitBootSvcDigest separatorInfo st e = .ok (.stop st')) :
    e.index = cfg.exitBootServicesIdx ∧ exitBootSvcDigest = e.digest ∧
      e.type = EventType.efiAction ∧ e.digestVerified = true ∧
      st'.efiAppStates = st.efiAppStates ++ appDigests cfg [e] ∧ st'.seenExitBootServices = true := by
  unfold efiStep at broke
  by_cases skipped : e.index ≠ cfg.efiAppIdx ∧ e.index ≠ cfg.exitBootServicesIdx
  · rw [if_pos skipped] at broke
    cases broke
  rw [if_neg skipped, bind_eq_ok] at broke
  obtain ⟨st1, app, exit⟩ := broke
  by_cases onExit : e.index = cfg.exitBootServicesIdx
  swap
  · simp [onExit, pure, Except.pure] at exit
  simp only [onExit, if_true] at exit
  obtain ⟨found, typed, verified, rfl⟩ :=
    exitBootServicesEvent_eq_stop cfg exitBootSvcDigest separatorInfo st1 st' e exit
  exact ⟨onExit, found, typed, verified,
    (efiAppPart_eq_ok cfg callingEFIAppDigest separatorInfo st st1 e app).1, rfl⟩

theorem efiStep_off_registers (st : EfiScan) (e : Event) (offApp : e.index ≠ cfg.efiAppIdx)
    (offExit : e.index ≠ cfg.exitBootServicesIdx) :
    efiStep cfg callingEFIAppDigest exitBootSvcDigest separatorInfo st e = .ok (.next st) := by
  rw [efiStep, if_pos ⟨offApp, offExit⟩]

theorem efiStep_app_action (st : EfiScan) (e : Event) (onApp : e.index = cfg.efiAppIdx)
    (offExit : e.index ≠ cfg.exitBootServicesIdx) (typed : e.type = EventType.efiAction)
    (verified : e.digestVerified = true) (fresh : st.seenCallingEfiApp = false)
    (beforeSeparator : st.seenSeparator4 = false)
    (notSeparator : checkIfValidSeparator e separatorInfo = .ok false) :
    efiStep cfg callingEFIAppDigest exitBootSvcDigest separatorInfo st e =
      .ok (.next { st with seenCallingEfiApp := decide (callingEFIAppDigest = e.digest) }) := by
  have notApp : EventType.efiAction ≠ EventType.efiBootServicesApplication := by decide
  obtain ⟨apps, _, seenSeparator5, _, exited⟩ := st
  subst fresh beforeSeparator
  rw [efiStep, if_neg (fun off => off.1 onApp), if_pos onApp]
  by_cases calling : callingEFIAppDigest = e.digest <;>
    simp [efiAppEvent, offExit, typed, verified, notSeparator, notApp, calling, pure, Except.pure,
      bind, Except.bind]

theorem efiStep_exitBootServices (st : EfiScan) (e : Event) (offApp : e.index ≠ cfg.efiAppIdx)
    (onExit : e.index = cfg.exitBootServicesIdx) (found : exitBootSvcDigest = e.digest)
    (typed : e.type = EventType.efiAction) (verified : e.digestVerified = true) :
    efiStep cfg callingEFIAppDigest exitBootSvcDigest separatorInfo st e =
      .ok (.stop { st with seenExitBootServices := true }) := by
  rw [efiStep, if_neg (fun off => off.2 onExit), if_neg offApp]
  simp [onExit, exitBootServicesEvent, found, typed, verified, bind, Except.bind]

end Passes

theorem efiDriverStep_off_register (helpers : Helpers) (cfg : RegisterConfig) (st : DriverScan)
    (e : Event) (off : e.index ≠ cfg.firmwareDriverIdx) :
    efiDriverStep helpers cfg st e = .ok (.next st) := by
  rw [efiDriverStep, if_pos off]

theorem efiDriverStep_bootServicesDriver (helpers : Helpers) (cfg : RegisterConfig) (st : DriverScan)
    (e : Event) (onDriver : e.index = cfg.firmwareDriverIdx)
    (typed : e.type = EventType.efiBootServicesDriver) (before : st.seenSeparator = false)
    (loads : helpers.parseEFIImageLoad e.data = none) :
    efiDriverStep helpers cfg st e =
      .ok (.next { st with efiDriverStates := st.efiDriverStates ++ [e.digest] }) := by
  have parsed : untrustedParseEventType e.type = .ok e.type := if_pos (typed ▸ by decide)
  have notSeparator : EventType.efiBootServicesDriver ≠ EventType.separator := by decide
  rw [efiDriverStep, if_neg (not_not.2 onDriver), parsed]
  simp [typed, notSeparator, before, loads]

/-! ### When `EfiDriverState` succeeds -/

section DriverLog

variable (helpers : Helpers) (cfg : RegisterConfig)

/-- An event after which the driver scan stays in its phase: off the driver register, or of a
known type other than a separator and, before the separator, a boot or runtime services driver
whose image loads. -/
def DriverPasses (seen : Bool) (e : Event) : Prop :=
  e.index = cfg.firmwareDriverIdx → e.type ∈ EventType.known ∧ e.type ≠ EventType.separator ∧
    (seen = false → e.type = EventType.efiBootServicesDriver ∨
      e.type = EventType.efiRuntimeServicesDriver → helpers.parseEFIImageLoad e.data = none)

/-- A separator of the driver register that the scan accepts: zero data and a verified digest. -/
def DriverSeparatorOk (e : Event) : Prop :=
  e.index = cfg.firmwareDriverIdx ∧ e.type = EventType.separator ∧ e.data = [0, 0, 0, 0] ∧
    helpers.digestEquals e e.data = none

/-- The logs the driver scan accepts: every event passes before any separator, or the driver
register has one separator, accepted, and the events after it pass. -/
def DriverLogAccepted (events : List Event) : Prop :=
  (∀ e ∈ events, DriverPasses helpers cfg false e) ∨ ∃ pre sep post, events = pre ++ sep :: post ∧
    (∀ e ∈ pre, DriverPasses helpers cfg false e) ∧ DriverSeparatorOk helpers cfg sep ∧
    ∀ e ∈ post, DriverPasses helpers cfg true e

theorem driverPasses_not_separator {seen : Bool} {e : Event} (passes : DriverPasses helpers cfg seen e)
    (separator : DriverSeparatorOk helpers cfg e) : False :=
  (passes separator.1).2.1 separator.2.1

theorem driverLogAccepted_cons (e : Event) (rest : List Event) :
    DriverLogAccepted helpers cfg (e :: rest) ↔
      (DriverPasses helpers cfg false e ∧ DriverLogAccepted helpers cfg rest) ∨
        (DriverSeparatorOk helpers cfg e ∧ ∀ x ∈ rest, DriverPasses helpers cfg true x) := by
  constructor
  · rintro (all | ⟨_ | ⟨y, pre⟩, sep, post, split, before, separator, after⟩)
    · exact .inl ⟨all e (List.mem_cons_self _ _), .inl fun x mem => all x (List.mem_cons_of_mem _ mem)⟩
    · obtain ⟨rfl, rfl⟩ := List.cons_eq_cons.1 split
      exact .inr ⟨separator, after⟩
    · obtain ⟨rfl, rfl⟩ := List.cons_eq_cons.1 split
      exact .inl ⟨before e (List.mem_cons_self _ _),
        .inr ⟨pre, sep, post, rfl, fun x mem => before x (List.mem_cons_of_mem _ mem), separator, after⟩⟩
  · rintro (⟨passes, all | ⟨pre, sep, post, rfl, before, separator, after⟩⟩ | ⟨separator, after⟩)
    · exact .inl (List.forall_mem_cons.2 ⟨passes, all⟩)
    · exact .inr ⟨e :: pre, sep, post, rfl, List.forall_mem_cons.2 ⟨passes, before⟩, separator, after⟩
    · exact .inr ⟨[], e, rest, rfl, by simp, separator, after⟩

theorem efiDriverStep_succeeds (st : DriverScan) (e : Event) :
    (∃ st', efiDriverStep helpers cfg st e = .ok (.next st')) ↔
      DriverPasses helpers cfg st.seenSeparator e ∨
        (st.seenSeparator = false ∧ DriverSeparatorOk helpers cfg e) := by
  unfold DriverPasses DriverSeparatorOk
  by_cases onDriver : e.index = cfg.firmwareDriverIdx
  swap
  · simp [efiDriverStep_off_register helpers cfg st e onDriver, onDriver]
  simp only [onDriver, true_implies, true_and]
  by_cases known : e.type ∈ EventType.known
  swap
  · have unknown : untrustedParseEventType e.type = .error (.failed s!"unknown event type {e.type}") :=
      if_neg known
    simp only [efiDriverStep, onDriver, ne_eq, not_true_eq_false, if_false, unknown, reduceCtorEq,
      exists_false, known, false_and, false_or]
    exact ⟨False.elim, fun ⟨_, separator, _⟩ => known (separator ▸ by decide)⟩
  have parsed : untrustedParseEventType e.type = .ok e.type := if_pos known
  simp only [efiDriverStep, onDriver, ne_eq, not_true_eq_false, if_false, parsed, known, true_and]
  by_cases separator : e.type = EventType.separator
  · cases seen : st.seenSeparator
    swap
    · simp [separator, seen]
    by_cases zero : e.data = [0, 0, 0, 0]
    · cases verify : helpers.digestEquals e e.data <;> simp [separator, seen, zero, verify]
    · simp [separator, seen, zero]
  have boot : EventType.efiBootServicesDriver ≠ EventType.separator := by decide
  have runtime : EventType.efiRuntimeServicesDriver ≠ EventType.separator := by decide
  have kinds : EventType.efiBootServicesDriver ≠ EventType.efiRuntimeServicesDriver := by decide
  by_cases bootDriver : e.type = EventType.efiBootServicesDriver
  · cases seen : st.seenSeparator
    swap
    · simp [separator, bootDriver, boot, seen]
    cases loads : helpers.parseEFIImageLoad e.data <;> simp [separator, bootDriver, boot, seen, loads]
  by_cases runtimeDriver : e.type = EventType.efiRuntimeServicesDriver
  · cases seen : st.seenSeparator
    swap
    · simp [separator, runtimeDriver, runtime, Ne.symm kinds, seen]
    cases loads : helpers.parseEFIImageLoad e.data <;>
      simp [separator, runtimeDriver, runtime, Ne.symm kinds, seen, loads]
  · simp [separator, bootDriver, runtimeDriver]

theorem forRange_efiDriverStep_seen (st : DriverScan) (seen : st.seenSeparator = true) (events : List Event) :
    (∃ final, forRange (efiDriverStep helpers cfg) st events = .ok final) ↔
      ∀ e ∈ events, DriverPasses helpers cfg true e := by
  induction events generalizing st with
  | nil => simp [forRange]
  | cons e rest ih =>
      have succeeds := efiDriverStep_succeeds helpers cfg st e
      rw [seen] at succeeds
      simp only [Bool.true_eq_false, false_and, or_false] at succeeds
      rcases stepped : efiDriverStep helpers cfg st e with err | ⟨st'⟩ | ⟨st'⟩
      · simp only [forRange, stepped, reduceCtorEq, exists_false, List.forall_mem_cons, false_iff,
          not_and]
        exact fun passes => by obtain ⟨_, ok⟩ := succeeds.2 passes; cases stepped.symm.trans ok
      · have still : st'.seenSeparator = true := by
          rw [(efiDriverStep_eq_next helpers cfg st st' e stepped).1, seen, Bool.true_or]
        rw [forRange, stepped, ih st' still, List.forall_mem_cons]
        exact ⟨fun all => ⟨succeeds.1 ⟨st', stepped⟩, all⟩, fun all => all.2⟩
      · exact absurd stepped (efiDriverStep_ne_stop helpers cfg st st' e)

theorem forRange_efiDriverStep_fresh (st : DriverScan) (fresh : st.seenSeparator = false)
    (events : List Event) :
    (∃ final, forRange (efiDriverStep helpers cfg) st events = .ok final) ↔
      DriverLogAccepted helpers cfg events := by
  induction events generalizing st with
  | nil => simp [forRange, DriverLogAccepted]
  | cons e rest ih =>
      have succeeds := efiDriverStep_succeeds helpers cfg st e
      simp only [fresh, true_and] at succeeds
      rw [driverLogAccepted_cons]
      rcases stepped : efiDriverStep helpers cfg st e with err | ⟨st'⟩ | ⟨st'⟩
      · simp only [forRange, stepped, reduceCtorEq, exists_false, false_iff, not_or, not_and]
        have fails : ¬(DriverPasses helpers cfg false e ∨ DriverSeparatorOk helpers cfg e) :=
          fun accepted => by obtain ⟨_, ok⟩ := succeeds.2 accepted; cases stepped.symm.trans ok
        exact ⟨fun passes _ => fails (.inl passes), fun separator _ => fails (.inr separator)⟩
      · have phase := (efiDriverStep_eq_next helpers cfg st st' e stepped).1
        rw [forRange, stepped]
        rcases succeeds.1 ⟨st', stepped⟩ with passes | separator
        · have still : st'.seenSeparator = false := by
            rw [phase, fresh, Bool.false_or, decide_eq_false_iff_not]
            exact fun ⟨onDriver, typed⟩ => (passes onDriver).2.1 typed
          rw [ih st' still]
          exact ⟨fun accepted => .inl ⟨passes, accepted⟩, fun
            | .inl ⟨_, accepted⟩ => accepted
            | .inr ⟨separator, _⟩ => (driverPasses_not_separator helpers cfg passes separator).elim⟩
        · have seen : st'.seenSeparator = true := by
            rw [phase, fresh, Bool.false_or, decide_eq_true_iff]
            exact ⟨separator.1, separator.2.1⟩
          rw [forRange_efiDriverStep_seen helpers cfg st' seen]
          exact ⟨fun after => .inr ⟨separator, after⟩, fun
            | .inl ⟨passes, _⟩ => (driverPasses_not_separator helpers cfg passes separator).elim
            | .inr ⟨_, after⟩ => after⟩
      · exact absurd stepped (efiDriverStep_ne_stop helpers cfg st st' e)

end DriverLog

/-- **When `EfiDriverState` succeeds.** It returns a state exactly when, on the driver register,
every event has a known type, at most one is a separator, which has zero data and a verified
digest, and every boot or runtime services driver before it loads as an image. The state then
holds the drivers before the separator, in log order. -/
theorem efiDriverState_eq_ok_iff (helpers : Helpers) (events : List Event) (cfg : RegisterConfig)
    (s : EfiState) :
    efiDriverState helpers events cfg = .ok s ↔ DriverLogAccepted helpers cfg events ∧
      s = { apps := [],
            bootServicesDrivers := driverDigests cfg EventType.efiBootServicesDriver events,
            runtimeServicesDrivers := driverDigests cfg EventType.efiRuntimeServicesDriver events } := by
  have scan := forRange_efiDriverStep_fresh helpers cfg ⟨false, [], []⟩ rfl events
  constructor
  · intro reported
    obtain ⟨boot, runtime⟩ := efiDriverState_eq_ok helpers events cfg s reported
    simp only [efiDriverState, bind_eq_ok, pure, Except.pure, Except.ok.injEq] at reported
    obtain ⟨final, ran, rfl⟩ := reported
    exact ⟨scan.1 ⟨final, ran⟩, by simp_all⟩
  · rintro ⟨accepted, rfl⟩
    obtain ⟨final, ran⟩ := scan.2 accepted
    have reported : efiDriverState helpers events cfg =
        .ok ⟨[], final.efiDriverStates, final.efiRuntimeDriverStates⟩ := by
      simp only [efiDriverState, ran, bind, Except.bind, pure, Except.pure]
    obtain ⟨boot, runtime⟩ := efiDriverState_eq_ok helpers events cfg _ reported
    rw [reported, ← boot, ← runtime]

/-! ### The main loop, over a run -/

/-- What the loop of `EfiState` has established once it has continued through the events
`done`: its state summarises them, none of them was the ExitBootServices action, and the
CallingEFIApp event, if any, came once, checked, before every application and every separator of
its register. -/
structure EfiScan.Summarises (cfg : RegisterConfig) (callingEFIAppDigest exitBootSvcDigest : Bytes)
    (separatorInfo : SeparatorInfo) (done : List Event) (st : EfiScan) : Prop where
  apps : st.efiAppStates = appDigests cfg done
  calling : st.seenCallingEfiApp = true ↔ ∃ c ∈ done, IsCallingEvent cfg callingEFIAppDigest c
  separator : st.seenSeparator4 = true ↔
    ∃ e ∈ done, e.index = cfg.efiAppIdx ∧ checkIfValidSeparator e separatorInfo = .ok true
  notExited : st.seenExitBootServices = false
  noExit : ∀ e ∈ done, e.index = cfg.exitBootServicesIdx → exitBootSvcDigest ≠ e.digest
  callingOnce : done.countP (IsCallingEvent cfg callingEFIAppDigest ·) ≤ 1
  callingChecked : ∀ c ∈ done, IsCallingEvent cfg callingEFIAppDigest c →
    c.type = EventType.efiAction ∧ c.digestVerified = true
  appAfterCalling : ∀ a ∈ done, a.index = cfg.efiAppIdx →
    a.type = EventType.efiBootServicesApplication →
      ∃ c, [c, a].Sublist done ∧ IsCallingEvent cfg callingEFIAppDigest c
  separatorAfterCalling : ∀ e c, [e, c].Sublist done → IsCallingEvent cfg callingEFIAppDigest c →
    e.index = cfg.efiAppIdx → checkIfValidSeparator e separatorInfo ≠ .ok true

section Runs

variable (cfg : RegisterConfig) (callingEFIAppDigest exitBootSvcDigest : Bytes)
  (separatorInfo : SeparatorInfo)

theorem summarises_start :
    EfiScan.Summarises cfg callingEFIAppDigest exitBootSvcDigest separatorInfo []
      ⟨[], false, false, false, false⟩ where
  apps := rfl
  calling := by simp
  separator := by simp
  notExited := rfl
  noExit := by simp
  callingOnce := by simp
  callingChecked := by simp
  appAfterCalling := by simp
  separatorAfterCalling _ _ sub := absurd sub.length_le (by simp)

theorem summarises_efiStep {done : List Event} {st st' : EfiScan} {e : Event}
    (inv : EfiScan.Summarises cfg callingEFIAppDigest exitBootSvcDigest separatorInfo done st)
    (passed : efiStep cfg callingEFIAppDigest exitBootSvcDigest separatorInfo st e = .ok (.next st')) :
    EfiScan.Summarises cfg callingEFIAppDigest exitBootSvcDigest separatorInfo (done ++ [e]) st' := by
  obtain ⟨apps, seen, calling, isApp, separator, notExit, exited⟩ :=
    efiStep_eq_next cfg callingEFIAppDigest exitBootSvcDigest separatorInfo st st' e passed
  have firstCalling (isCalling : IsCallingEvent cfg callingEFIAppDigest e) :
      ∀ c ∈ done, ¬IsCallingEvent cfg callingEFIAppDigest c := fun c mem other => by
    simpa [(calling isCalling.1 isCalling.2).2.2.1] using inv.calling.2 ⟨c, mem, other⟩
  constructor
  case apps => rw [apps, inv.apps, appDigests, appDigests, appDigests, List.filter_append,
    List.map_append]
  case calling =>
    rw [seen, Bool.or_eq_true, inv.calling, decide_eq_true_iff]
    simp [or_and_right, exists_or, IsCallingEvent]
  case separator =>
    rw [separator, inv.separator]
    simp [or_and_right, exists_or]
  case notExited => rw [exited, inv.notExited]
  case noExit =>
    intro x mem
    rcases List.mem_append.1 mem with old | new
    · exact inv.noExit x old
    · exact List.mem_singleton.1 new ▸ notExit
  case callingOnce =>
    rw [List.countP_append]
    by_cases isCalling : IsCallingEvent cfg callingEFIAppDigest e
    · have none : done.countP (IsCallingEvent cfg callingEFIAppDigest ·) = 0 :=
        List.countP_eq_zero.2 (by simpa using firstCalling isCalling)
      simp [none, isCalling]
    · simpa [isCalling] using inv.callingOnce
  case callingChecked =>
    intro c mem isCalling
    rcases List.mem_append.1 mem with old | new
    · exact inv.callingChecked c old isCalling
    · obtain rfl := List.mem_singleton.1 new
      exact ⟨(calling isCalling.1 isCalling.2).1, (calling isCalling.1 isCalling.2).2.1⟩
  case appAfterCalling =>
    intro a mem onApp typed
    rcases List.mem_append.1 mem with old | new
    · obtain ⟨c, sub, isCalling⟩ := inv.appAfterCalling a old onApp typed
      exact ⟨c, sub.trans (List.sublist_append_left done [e]), isCalling⟩
    · obtain rfl := List.mem_singleton.1 new
      obtain ⟨c, mem, isCalling⟩ := inv.calling.1 (isApp onApp typed)
      exact ⟨c, pair_sublist_append_singleton.2 (.inr ⟨mem, rfl⟩), isCalling⟩
  case separatorAfterCalling =>
    intro x c sub isCalling onApp valid
    rcases pair_sublist_append_singleton.1 sub with old | ⟨mem, rfl⟩
    · exact inv.separatorAfterCalling x c old isCalling onApp valid
    · simpa [(calling isCalling.1 isCalling.2).2.2.2] using inv.separator.2 ⟨x, mem, onApp, valid⟩

theorem summarises_run {done : List Event} {st : EfiScan}
    (ran : Continues (efiStep cfg callingEFIAppDigest exitBootSvcDigest separatorInfo)
      ⟨[], false, false, false, false⟩ done st) :
    EfiScan.Summarises cfg callingEFIAppDigest exitBootSvcDigest separatorInfo done st := by
  simpa using ran.invariant_after _
    (fun _ _ _ _ inv passed => summarises_efiStep cfg _ _ _ inv passed)
    (summarises_start cfg callingEFIAppDigest exitBootSvcDigest separatorInfo)

end Runs

/-- **What a reported EFI state means.** The log splits at its first ExitBootServices action `x`,
a verified EFI action; the applications are those of the EFI-application register before `x`;
before `x` the CallingEFIApp event comes at most once, verified, before every application and
after no separator of its register; the drivers are those of the driver register before its
separator, over the whole log. -/
theorem efiState_eq_some (H : Hasher) (hash : Hash) (helpers : Helpers) (events : List Event)
    (cfg : RegisterConfig) (s : EfiState)
    (reported : efiState H hash helpers events cfg = .ok (some s)) :
    ∃ pre x post, events = pre ++ x :: post ∧
      (x.index = cfg.exitBootServicesIdx ∧ x.digest = H.sum hash exitBootServicesInvocation ∧
        (∀ e ∈ pre, e.index = cfg.exitBootServicesIdx →
          e.digest ≠ H.sum hash exitBootServicesInvocation) ∧
        x.type = EventType.efiAction ∧ x.digestVerified = true) ∧
      s.apps = appDigests cfg pre ∧
      (pre.countP (IsCallingEvent cfg (H.sum hash callingEFIApplication) ·) ≤ 1 ∧
        (∀ c ∈ pre, IsCallingEvent cfg (H.sum hash callingEFIApplication) c →
          c.type = EventType.efiAction ∧ c.digestVerified = true) ∧
        (∀ a ∈ pre, a.index = cfg.efiAppIdx → a.type = EventType.efiBootServicesApplication →
          ∃ c, [c, a].Sublist pre ∧ IsCallingEvent cfg (H.sum hash callingEFIApplication) c) ∧
        (∀ e c, [e, c].Sublist pre → IsCallingEvent cfg (H.sum hash callingEFIApplication) c →
          e.index = cfg.efiAppIdx → checkIfValidSeparator e (getSeparatorInfo H hash) ≠ .ok true)) ∧
      s.bootServicesDrivers = driverDigests cfg EventType.efiBootServicesDriver events ∧
      s.runtimeServicesDrivers = driverDigests cfg EventType.efiRuntimeServicesDriver events := by
  simp only [efiState, bind_eq_ok] at reported
  obtain ⟨st, ran, rest⟩ := reported
  split at rest
  next exited =>
    simp only [bind_eq_ok, pure, Except.pure, Except.ok.injEq, Option.some.injEq] at rest
    obtain ⟨drivers, driversOk, rfl⟩ := rest
    obtain ⟨boot, runtime⟩ := efiDriverState_eq_ok helpers events cfg drivers driversOk
    rcases forRange_eq_ok _ _ _ ran with all | ⟨pre, x, post, st', split, run, broke⟩
    · simp [(summarises_run cfg _ _ _ all).notExited] at exited
    have inv := summarises_run cfg _ _ _ run
    obtain ⟨onExit, found, typed, verified, apps, -⟩ := efiStep_eq_stop cfg _ _ _ st' st x broke
    have notApp : EventType.efiAction ≠ EventType.efiBootServicesApplication := by decide
    refine ⟨pre, x, post, split, ⟨onExit, found.symm, fun e mem onExit => (inv.noExit e mem onExit).symm,
      typed, verified⟩, ?_, ⟨inv.callingOnce, inv.callingChecked, inv.appAfterCalling,
      inv.separatorAfterCalling⟩, boot, runtime⟩
    simp [apps, inv.apps, appDigests, typed, notApp]
  next => simp [pure, Except.pure] at rest

theorem efiState_of_loops (H : Hasher) (hash : Hash) (helpers : Helpers) (events : List Event)
    (cfg : RegisterConfig) (st : EfiScan) (drivers : DriverScan)
    (loop : forRange (efiStep cfg (H.sum hash callingEFIApplication)
      (H.sum hash exitBootServicesInvocation) (getSeparatorInfo H hash)) ⟨[], false, false, false, false⟩
      events = .ok st)
    (exited : st.seenExitBootServices = true)
    (driverLoop : forRange (efiDriverStep helpers cfg) ⟨false, [], []⟩ events = .ok drivers) :
    efiState H hash helpers events cfg =
      .ok (some ⟨st.efiAppStates, drivers.efiDriverStates, drivers.efiRuntimeDriverStates⟩) := by
  simp [efiState, efiDriverState, loop, exited, driverLoop, bind, Except.bind, pure, Except.pure]

/-- Helpers that accept every image load and every digest, and find no Secure Boot state. -/
def acceptingHelpers : Helpers where
  parseEFIImageLoad _ := none
  digestEquals _ _ := none
  parseSecurebootState _ _ _ := .error (.failed "no Secure Boot variables")
  wellKnownCerts := []

/-- The ExitBootServices action on register 5 of the TPM configuration, as firmware measures it. -/
def exitBootServicesAction (H : Hasher) (hash : Hash) (num : Nat) : Event :=
  ⟨num, 5, EventType.efiAction, exitBootServicesInvocation, H.sum hash exitBootServicesInvocation, true⟩

/-- A boot of one EFI application on the TPM configuration: the CallingEFIApp action, the
application, and the ExitBootServices action. -/
def oneAppBoot (H : Hasher) (hash : Hash) (app : Bytes) : List Event :=
  [⟨0, 4, EventType.efiAction, callingEFIApplication, H.sum hash callingEFIApplication, true⟩,
   ⟨1, 4, EventType.efiBootServicesApplication, [], app, true⟩,
   exitBootServicesAction H hash 2]

theorem efiState_oneAppBoot :
    efiState Hasher.tagged .sha256 acceptingHelpers (oneAppBoot Hasher.tagged .sha256 [7])
        tpmRegisterConfig = .ok (some ⟨[[7]], [], []⟩) ∧
      ∃ pre x post, oneAppBoot Hasher.tagged .sha256 [7] = pre ++ x :: post ∧ x.index = 5 ∧
        [[7]] = appDigests tpmRegisterConfig pre := by
  obtain ⟨pre, x, post, split, ⟨onExit, -⟩, apps, -⟩ := efiState_eq_some Hasher.tagged .sha256
    acceptingHelpers (oneAppBoot Hasher.tagged .sha256 [7]) tpmRegisterConfig ⟨[[7]], [], []⟩ rfl
  exact ⟨rfl, pre, x, post, split, onExit, apps⟩

/-! ### Separators in disguise, and events after ExitBootServices -/

/-- A boot services driver on register 2 whose digest is that of the separator data 00000000. -/
def disguisedDriver (H : Hasher) (hash : Hash) (image : Bytes) : Event :=
  ⟨0, 2, EventType.efiBootServicesDriver, image, H.sum hash [0, 0, 0, 0], false⟩

/-- An EFI action on register 4 whose digest is that of the separator data FFFFFFFF. -/
def disguisedAction (H : Hasher) (hash : Hash) : Event :=
  ⟨1, 4, EventType.efiAction, [0xff, 0xff, 0xff, 0xff], H.sum hash [0xff, 0xff, 0xff, 0xff], true⟩

def disguisedSeparators (H : Hasher) (hash : Hash) (image : Bytes) : List Event :=
  [disguisedDriver H hash image, disguisedAction H hash, exitBootServicesAction H hash 2]

/-- `EfiState` reports a state for a log with two separators in disguise: the driver scan checks
no digest at all, and `getSeparatorInfo` lists the digest of 00000000FFFFFFFF, not of FFFFFFFF.
The disguised driver is reported as a driver. -/
theorem efiState_disguisedSeparators (H : Hasher) (hash : Hash) (helpers : Helpers) (image : Bytes)
    (loads : helpers.parseEFIImageLoad image = none)
    (unlisted : H.sum hash [0xff, 0xff, 0xff, 0xff] ∉ (getSeparatorInfo H hash).separatorDigests) :
    efiState H hash helpers (disguisedSeparators H hash image) tpmRegisterConfig =
      .ok (some ⟨[], [H.sum hash [0, 0, 0, 0]], []⟩) := by
  have notSeparator : checkIfValidSeparator (disguisedAction H hash) (getSeparatorInfo H hash) =
      .ok false := by
    have notListed : contains (getSeparatorInfo H hash).separatorDigests
        (H.sum hash [0xff, 0xff, 0xff, 0xff]) = false := by
      rw [Bool.eq_false_iff, ne_eq, contains_iff]
      exact unlisted
    have typed : EventType.efiAction ≠ EventType.separator := by decide
    simp [checkIfValidSeparator, disguisedAction, notListed, typed]
  have loop : forRange (efiStep tpmRegisterConfig (H.sum hash callingEFIApplication)
      (H.sum hash exitBootServicesInvocation) (getSeparatorInfo H hash)) ⟨[], false, false, false, false⟩
      (disguisedSeparators H hash image) = .ok _ := forRange_append_stop _ _ _ _ [] _
    (.cons (efiStep_off_registers _ _ _ _ _ (disguisedDriver H hash image)
      (by simp [disguisedDriver, tpmRegisterConfig]) (by simp [disguisedDriver, tpmRegisterConfig]))
      (.cons (efiStep_app_action _ _ _ _ _ (disguisedAction H hash) rfl
        (by simp [disguisedAction, tpmRegisterConfig]) rfl rfl rfl rfl
        notSeparator) (.nil _)))
    (efiStep_exitBootServices _ _ _ _ _ (exitBootServicesAction H hash 2)
      (by simp [exitBootServicesAction, tpmRegisterConfig]) rfl rfl rfl rfl)
  have drivers : forRange (efiDriverStep helpers tpmRegisterConfig) ⟨false, [], []⟩
      (disguisedSeparators H hash image) = .ok ⟨false, [H.sum hash [0, 0, 0, 0]], []⟩ :=
    Continues.forRange_eq (.cons (efiDriverStep_bootServicesDriver _ _ _ _ rfl rfl rfl loads)
      (.cons (efiDriverStep_off_register _ _ _ (disguisedAction H hash)
        (by simp [disguisedAction, tpmRegisterConfig]))
        (.cons (efiDriverStep_off_register _ _ _ (exitBootServicesAction H hash 2)
          (by simp [exitBootServicesAction, tpmRegisterConfig]))
          (.nil _))))
  exact efiState_of_loops _ _ _ _ _ _ _ loop rfl drivers


theorem efiState_disguisedSeparators_tagged :
    Hasher.tagged.sum .sha256 [0xff, 0xff, 0xff, 0xff] ∉
        (getSeparatorInfo Hasher.tagged .sha256).separatorDigests ∧
      efiState Hasher.tagged .sha256 acceptingHelpers (disguisedSeparators Hasher.tagged .sha256 [])
        tpmRegisterConfig = .ok (some ⟨[], [Hasher.tagged.sum .sha256 [0, 0, 0, 0]], []⟩) :=
  ⟨by decide, efiState_disguisedSeparators Hasher.tagged .sha256 acceptingHelpers [] rfl (by decide)⟩

/-- An event on register 2 of a type the TCG profile does not define. -/
def unknownDriverEvent : Event := ⟨1, 2, 0x12345, [], [], false⟩

/-- An event after ExitBootServices turns a reported EFI state into an error: the driver scan
reads the whole log. -/
theorem efiState_after_exitBootServices (H : Hasher) (hash : Hash) (helpers : Helpers) :
    efiState H hash helpers [exitBootServicesAction H hash 0] tpmRegisterConfig =
        .ok (some ⟨[], [], []⟩) ∧
      ∃ err, efiState H hash helpers [exitBootServicesAction H hash 0, unknownDriverEvent]
        tpmRegisterConfig = .error err := by
  constructor
  · simp [efiState, exitBootServicesAction, forRange, efiStep, exitBootServicesEvent,
      efiDriverState, efiDriverStep, tpmRegisterConfig, pure, Except.pure, bind, Except.bind]
  · simp [efiState, exitBootServicesAction, unknownDriverEvent, forRange, efiStep,
      exitBootServicesEvent, efiDriverState, efiDriverStep, tpmRegisterConfig,
      untrustedParseEventType, EventType.known, pure, Except.pure, bind, Except.bind]

/-- **Events after ExitBootServices off the driver register change nothing.** Once the log holds
the ExitBootServices action, `EfiState` of the log extended by events on registers other than
the driver one is that of the log. -/
theorem efiState_append_off_driver (H : Hasher) (hash : Hash) (helpers : Helpers)
    (cfg : RegisterConfig) (P S : List Event) (x : Event) (mem : x ∈ P)
    (onExit : x.index = cfg.exitBootServicesIdx)
    (found : x.digest = H.sum hash exitBootServicesInvocation)
    (offDriver : ∀ e ∈ S, e.index ≠ cfg.firmwareDriverIdx) :
    efiState H hash helpers (P ++ S) cfg = efiState H hash helpers P cfg := by
  have loop : forRange (efiStep cfg (H.sum hash callingEFIApplication)
      (H.sum hash exitBootServicesInvocation) (getSeparatorInfo H hash))
        ⟨[], false, false, false, false⟩ (P ++ S) =
      forRange (efiStep cfg (H.sum hash callingEFIApplication)
        (H.sum hash exitBootServicesInvocation) (getSeparatorInfo H hash))
        ⟨[], false, false, false, false⟩ P :=
    forRange_append_of_not_continues _ _ _ fun ⟨_, ran⟩ =>
      (summarises_run cfg _ _ _ ran).noExit x mem onExit found.symm
  have drivers : efiDriverState helpers (P ++ S) cfg = efiDriverState helpers P cfg := by
    have skip (st : DriverScan) : forRange (efiDriverStep helpers cfg) st S = .ok st :=
      (Continues.of_skipped st S fun e mem =>
        efiDriverStep_off_register helpers cfg st e (offDriver e mem)).forRange_eq
    simp only [efiDriverState,
      forRange_append_of_never_stops (fun _ _ _ => efiDriverStep_ne_stop helpers cfg _ _ _), skip]
    cases forRange (efiDriverStep helpers cfg) ⟨false, [], []⟩ P <;> rfl
  simp only [efiState, loop, drivers]

theorem efiState_append_after_boot :
    efiState Hasher.tagged .sha256 acceptingHelpers
        (oneAppBoot Hasher.tagged .sha256 [7] ++ [disguisedAction Hasher.tagged .sha256])
        tpmRegisterConfig =
      efiState Hasher.tagged .sha256 acceptingHelpers (oneAppBoot Hasher.tagged .sha256 [7])
        tpmRegisterConfig :=
  efiState_append_off_driver _ _ _ _ _ _ (exitBootServicesAction Hasher.tagged .sha256 2)
    (by simp [oneAppBoot]) rfl rfl (by simp [disguisedAction, tpmRegisterConfig])

/-- Whether an event is on one of the three registers `EfiState` reads. -/
def onEfiRegisters (cfg : RegisterConfig) (e : Event) : Bool :=
  e.index = cfg.efiAppIdx ∨ e.index = cfg.exitBootServicesIdx ∨ e.index = cfg.firmwareDriverIdx

theorem efiState_filter (H : Hasher) (hash : Hash) (helpers : Helpers) (cfg : RegisterConfig)
    (events : List Event) :
    efiState H hash helpers (events.filter (onEfiRegisters cfg)) cfg = efiState H hash helpers events cfg := by
  have loop : forRange (efiStep cfg (H.sum hash callingEFIApplication)
      (H.sum hash exitBootServicesInvocation) (getSeparatorInfo H hash)) ⟨[], false, false, false, false⟩
        (events.filter (onEfiRegisters cfg)) =
      forRange (efiStep cfg (H.sum hash callingEFIApplication)
        (H.sum hash exitBootServicesInvocation) (getSeparatorInfo H hash)) ⟨[], false, false, false, false⟩
        events :=
    forRange_filter _ (fun st e off => by
      simp only [onEfiRegisters, decide_eq_false_iff_not, not_or] at off
      exact efiStep_off_registers cfg _ _ _ st e off.1 off.2.1) _ events
  have drivers : forRange (efiDriverStep helpers cfg) ⟨false, [], []⟩ (events.filter (onEfiRegisters cfg)) =
      forRange (efiDriverStep helpers cfg) ⟨false, [], []⟩ events :=
    forRange_filter _ (fun st e off => by
      simp only [onEfiRegisters, decide_eq_false_iff_not, not_or] at off
      exact efiDriverStep_off_register helpers cfg st e off.2.2) _ events
  simp only [efiState, efiDriverState, loop, drivers]

/-- **Other registers do not interfere with `EfiState`.** Two logs with the same events, in the
same order, on the EFI-application, ExitBootServices and driver registers get the same result,
whatever they hold on other registers and however those events interleave. -/
theorem efiState_other_registers (H : Hasher) (hash : Hash) (helpers : Helpers) (cfg : RegisterConfig)
    (E1 E2 : List Event) (same : E1.filter (onEfiRegisters cfg) = E2.filter (onEfiRegisters cfg)) :
    efiState H hash helpers E1 cfg = efiState H hash helpers E2 cfg := by
  rw [← efiState_filter H hash helpers cfg E1, same, efiState_filter]

/-- A log with a platform event before its single EFI action, and the action alone. -/
theorem efiState_other_registers_platform :
    ([⟨0, 0, EventType.scrtmVersion, [1], [], true⟩, exitBootServicesAction Hasher.tagged .sha256 1].filter
        (onEfiRegisters tpmRegisterConfig) =
      [exitBootServicesAction Hasher.tagged .sha256 1].filter (onEfiRegisters tpmRegisterConfig)) ∧
    efiState Hasher.tagged .sha256 acceptingHelpers
        [⟨0, 0, EventType.scrtmVersion, [1], [], true⟩, exitBootServicesAction Hasher.tagged .sha256 1]
        tpmRegisterConfig =
      efiState Hasher.tagged .sha256 acceptingHelpers [exitBootServicesAction Hasher.tagged .sha256 1]
        tpmRegisterConfig :=
  ⟨by decide, efiState_other_registers _ _ _ _ _ _ (by decide)⟩

end MeasuredBoot
