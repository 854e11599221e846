import MeasuredBoot.Extract.Efi

/-!
Which logs `EfiState` accepts. The state of its loop is a function of the events it has gone
through (`efiSummary`); from that state a pass goes on exactly over an event that passes the
checks of its registers (`EfiPasses`), to the state of the events one longer, and breaks exactly
at the ExitBootServices action (`EfiBreaks`). The loop lemma `forRange_eq_ok_iff_of_summary`
turns these two step lemmas into the whole run.
-/

namespace MeasuredBoot

section Passes

variable (cfg : RegisterConfig) (callingEFIAppDigest exitBootSvcDigest : Bytes)
  (separatorInfo : SeparatorInfo)

theorem efiAppEvent_eq_ok_iff (st st' : EfiScan) (e : Event) :
    efiAppEvent cfg callingEFIAppDigest separatorInfo st e = .ok st' ↔
      (callingEFIAppDigest = e.digest → e.type = EventType.efiAction ∧ e.digestVerified = true ∧
        st.seenCallingEfiApp = false ∧ st.seenSeparator4 = false) ∧
      (e.type = EventType.efiBootServicesApplication → st.seenCallingEfiApp = true) ∧
      ∃ valid, checkIfValidSeparator e separatorInfo = .ok valid ∧
        (valid = true → st.seenSeparator4 = false) ∧
        st' = { st with
          efiAppStates := st.efiAppStates ++
            (if e.type = EventType.efiBootServicesApplication then [e.digest] else []),
          seenCallingEfiApp := st.seenCallingEfiApp || decide (callingEFIAppDigest = e.digest),
          seenSeparator4 := st.seenSeparator4 || valid } := by
  have notApp : EventType.efiAction ≠ EventType.efiBootServicesApplication := by decide
  simp only [@eq_comm _ st']
  obtain ⟨apps, sep4, sep5, seen, exited⟩ := st
  obtain ⟨apps', sep4', sep5', seen', exited'⟩ := st'
  simp only [efiAppEvent, bind_eq_ok]
  by_cases found : callingEFIAppDigest = e.digest <;> by_cases isApp : e.type = EventType.efiBootServicesApplication <;>
    simp only [found, isApp, ↓reduceIte, ne_eq, ite_not, notApp.symm, not_false_eq_true, reduceCtorEq,
      Bool.not_eq_eq_eq_not, Bool.not_true, Bool.not_eq_false, Bool.not_eq_true, guard_eq_ok_iff,
      guard_else_eq_ok_iff, Except.ok.injEq, pure, Except.pure, Bool.exists_bool, Bool.false_eq_true,
      EfiScan.mk.injEq, Bool.true_eq, and_assoc, exists_and_left, exists_eq_left', false_and,
      exists_false, imp_false, imp_self, not_true_eq_false, forall_const, decide_True, decide_False,
      Bool.or_true, Bool.or_false, IsEmpty.forall_iff, true_and, List.append_nil]

theorem exitBootServicesEvent_eq_next_iff (st st' : EfiScan) (e : Event) :
    exitBootServicesEvent cfg exitBootSvcDigest separatorInfo st e = .ok (.next st') ↔
      exitBootSvcDigest ≠ e.digest ∧ ∃ valid, checkIfValidSeparator e separatorInfo = .ok valid ∧
        (valid = true → st.seenSeparator5 = false) ∧
        st' = { st with seenSeparator5 := st.seenSeparator5 || valid } := by
  simp only [@eq_comm _ st']
  obtain ⟨apps, sep4, sep5, seen, exited⟩ := st
  obtain ⟨apps', sep4', sep5', seen', exited'⟩ := st'
  by_cases found : exitBootSvcDigest = e.digest
  · simp [exitBootServicesEvent, found, guard_eq_ok_iff, guard_else_eq_ok_iff]
  · simp [exitBootServicesEvent, found, bind_eq_ok, guard_eq_ok_iff, pure, Except.pure, and_assoc]

theorem exitBootServicesEvent_eq_stop_iff (st st' : EfiScan) (e : Event) :
    exitBootServicesEvent cfg exitBootSvcDigest separatorInfo st e = .ok (.stop st') ↔
      exitBootSvcDigest = e.digest ∧ e.type = EventType.efiAction ∧ e.digestVerified = true ∧
        st' = { st with seenExitBootServices := true } := by
  simp only [@eq_comm _ st']
  by_cases found : exitBootSvcDigest = e.digest
  · simp [exitBootServicesEvent, found, guard_eq_ok_iff, guard_else_eq_ok_iff]
  · simp [exitBootServicesEvent, found, bind_eq_ok, guard_eq_ok_iff, pure, Except.pure]

end Passes

/-! ### The events the loop of `EfiState` accepts -/

/-- A separator that `checkIfValidSeparator` accepts, on register `index`. -/
def IsSeparatorOn (separatorInfo : SeparatorInfo) (index : Nat) (e : Event) : Prop :=
  e.index = index ∧ checkIfValidSeparator e separatorInfo = .ok true

instance (separatorInfo : SeparatorInfo) (index : Nat) : DecidablePred (IsSeparatorOn separatorInfo index) :=
  fun e => inferInstanceAs (Decidable (e.index = index ∧ checkIfValidSeparator e separatorInfo = .ok true))

section Accepted

variable (cfg : RegisterConfig) (callingEFIAppDigest exitBootSvcDigest : Bytes)
  (separatorInfo : SeparatorInfo)

/-- The state of the loop of `EfiState` after the events `done`, as those events determine it. -/
def efiSummary (done : List Event) : EfiScan where
  efiAppStates := appDigests cfg done
  seenSeparator4 := done.any fun e => decide (IsSeparatorOn separatorInfo cfg.efiAppIdx e)
  seenSeparator5 := done.any fun e => decide (IsSeparatorOn separatorInfo cfg.exitBootServicesIdx e)
  seenCallingEfiApp := done.any fun e => decide (IsCallingEvent cfg callingEFIAppDigest e)
  seenExitBootServices := false

/-- What the EFI-application part of a pass asks of an event `e` after the events `done`: a
CallingEFIApp event is a verified EFI action, the first one, before any separator of its
register; an application comes after a CallingEFIApp event; and the separator check accepts `e`,
as the register's first separator if it is one. -/
@[mk_iff]
structure AppPasses (done : List Event) (e : Event) : Prop where
  calling : callingEFIAppDigest = e.digest → e.type = EventType.efiAction ∧
    e.digestVerified = true ∧ (∀ c ∈ done, ¬IsCallingEvent cfg callingEFIAppDigest c) ∧
    ∀ s ∈ done, ¬IsSeparatorOn separatorInfo cfg.efiAppIdx s
  app : e.type = EventType.efiBootServicesApplication →
    ∃ c ∈ done, IsCallingEvent cfg callingEFIAppDigest c
  separator : ∃ valid, checkIfValidSeparator e separatorInfo = .ok valid ∧
    (valid = true → ∀ s ∈ done, ¬IsSeparatorOn separatorInfo cfg.efiAppIdx s)

/-- What the ExitBootServices part of a pass that goes on asks of an event `e` after the events
`done`: it is not the ExitBootServices action, and the separator check accepts it, as the
register's first separator if it is one. -/
@[mk_iff]
structure ExitPasses (done : List Event) (e : Event) : Prop where
  notExit : exitBootSvcDigest ≠ e.digest
  separator : ∃ valid, checkIfValidSeparator e separatorInfo = .ok valid ∧
    (valid = true → ∀ s ∈ done, ¬IsSeparatorOn separatorInfo cfg.exitBootServicesIdx s)

/-- An event a pass goes on over: it passes the checks of the parts of its registers. -/
def EfiPasses (done : List Event) (e : Event) : Prop :=
  (e.index = cfg.efiAppIdx → AppPasses cfg callingEFIAppDigest separatorInfo done e) ∧
    (e.index = cfg.exitBootServicesIdx → ExitPasses cfg exitBootSvcDigest separatorInfo done e)

/-- An event a pass breaks at: the ExitBootServices action, a verified EFI action on its
register, which also passes the checks of the EFI-application part if it is on that register. -/
def EfiBreaks (done : List Event) (e : Event) : Prop :=
  e.index = cfg.exitBootServicesIdx ∧ exitBootSvcDigest = e.digest ∧
    e.type = EventType.efiAction ∧ e.digestVerified = true ∧
    (e.index = cfg.efiAppIdx → AppPasses cfg callingEFIAppDigest separatorInfo done e)

theorem appPasses_iff_summary (done : List Event) (e : Event) :
    AppPasses cfg callingEFIAppDigest separatorInfo done e ↔
      (callingEFIAppDigest = e.digest → e.type = EventType.efiAction ∧ e.digestVerified = true ∧
        (efiSummary cfg callingEFIAppDigest separatorInfo done).seenCallingEfiApp = false ∧
        (efiSummary cfg callingEFIAppDigest separatorInfo done).seenSeparator4 = false) ∧
      (e.type = EventType.efiBootServicesApplication →
        (efiSummary cfg callingEFIAppDigest separatorInfo done).seenCallingEfiApp = true) ∧
      ∃ valid, checkIfValidSeparator e separatorInfo = .ok valid ∧
        (valid = true → (efiSummary cfg callingEFIAppDigest separatorInfo done).seenSeparator4 = false) := by
  simp [appPasses_iff, efiSummary]

/-- The state after the EFI-application part of the pass over `e`: the summary one event longer,
but for the separator of the ExitBootServices register, which that part does not look at. -/
def efiSummaryAfterApp (done : List Event) (e : Event) : EfiScan :=
  { efiSummary cfg callingEFIAppDigest separatorInfo (done ++ [e]) with
    seenSeparator5 := (efiSummary cfg callingEFIAppDigest separatorInfo done).seenSeparator5 }

theorem efiAppPart_summary (done : List Event) (e : Event) (st1 : EfiScan) :
    (if e.index = cfg.efiAppIdx then
        efiAppEvent cfg callingEFIAppDigest separatorInfo (efiSummary cfg callingEFIAppDigest separatorInfo done) e
      else .ok (efiSummary cfg callingEFIAppDigest separatorInfo done)) = .ok st1 ↔
      (e.index = cfg.efiAppIdx → AppPasses cfg callingEFIAppDigest separatorInfo done e) ∧
        st1 = efiSummaryAfterApp cfg callingEFIAppDigest separatorInfo done e := by
  by_cases onApp : e.index = cfg.efiAppIdx
  · rw [if_pos onApp, efiAppEvent_eq_ok_iff, appPasses_iff_summary]
    have after (valid : Bool) (checked : checkIfValidSeparator e separatorInfo = .ok valid) :
        { efiSummary cfg callingEFIAppDigest separatorInfo done with
          efiAppStates := (efiSummary cfg callingEFIAppDigest separatorInfo done).efiAppStates ++
            (if e.type = EventType.efiBootServicesApplication then [e.digest] else []),
          seenCallingEfiApp := (efiSummary cfg callingEFIAppDigest separatorInfo done).seenCallingEfiApp ||
            decide (callingEFIAppDigest = e.digest),
          seenSeparator4 := (efiSummary cfg callingEFIAppDigest separatorInfo done).seenSeparator4 || valid } =
          efiSummaryAfterApp cfg callingEFIAppDigest separatorInfo done e := by
      by_cases isApp : e.type = EventType.efiBootServicesApplication <;>
        simp [efiSummaryAfterApp, efiSummary, appDigests, IsSeparatorOn, IsCallingEvent, onApp, checked, isApp]
    simp only [onApp, true_implies]
    constructor
    · rintro ⟨calling, app, valid, checked, fresh, rfl⟩
      exact ⟨⟨calling, app, valid, checked, fresh⟩, after valid checked⟩
    · rintro ⟨⟨calling, app, valid, checked, fresh⟩, rfl⟩
      exact ⟨calling, app, valid, checked, fresh, (after valid checked).symm⟩
  · rw [if_neg onApp]
    simp [efiSummaryAfterApp, efiSummary, appDigests, IsSeparatorOn, IsCallingEvent, onApp, eq_comm]

theorem efiExitPart_summary_next (done : List Event) (e : Event) (state : EfiScan) :
    (if e.index = cfg.exitBootServicesIdx then
        exitBootServicesEvent cfg exitBootSvcDigest separatorInfo
          (efiSummaryAfterApp cfg callingEFIAppDigest separatorInfo done e) e
      else pure (.next (efiSummaryAfterApp cfg callingEFIAppDigest separatorInfo done e))) =
        .ok (.next state) ↔
      (e.index = cfg.exitBootServicesIdx → ExitPasses cfg exitBootSvcDigest separatorInfo done e) ∧
        state = efiSummary cfg callingEFIAppDigest separatorInfo (done ++ [e]) := by
  by_cases onExit : e.index = cfg.exitBootServicesIdx
  · rw [if_pos onExit, exitBootServicesEvent_eq_next_iff, exitPasses_iff]
    simp only [onExit, true_implies]
    cases checked : checkIfValidSeparator e separatorInfo with
    | error err => simp
    | ok valid =>
        simp [efiSummaryAfterApp, efiSummary, IsSeparatorOn, onExit, checked, and_assoc]
  · rw [if_neg onExit]
    simp [efiSummaryAfterApp, efiSummary, IsSeparatorOn, onExit, pure, Except.pure, eq_comm]

theorem efiExitPart_summary_stop (done : List Event) (e : Event) (state : EfiScan) :
    (if e.index = cfg.exitBootServicesIdx then
        exitBootServicesEvent cfg exitBootSvcDigest separatorInfo
          (efiSummaryAfterApp cfg callingEFIAppDigest separatorInfo done e) e
      else pure (.next (efiSummaryAfterApp cfg callingEFIAppDigest separatorInfo done e))) =
        .ok (.stop state) ↔
      e.index = cfg.exitBootServicesIdx ∧ exitBootSvcDigest = e.digest ∧
        e.type = EventType.efiAction ∧ e.digestVerified = true ∧
        state = { efiSummaryAfterApp cfg callingEFIAppDigest separatorInfo done e with
          seenExitBootServices := true } := by
  by_cases onExit : e.index = cfg.exitBootServicesIdx
  · rw [if_pos onExit, exitBootServicesEvent_eq_stop_iff]
    simp [onExit]
  · rw [if_neg onExit]
    simp [onExit, pure, Except.pure]

theorem efiSummary_append_off (done : List Event) (e : Event) (offApp : e.index ≠ cfg.efiAppIdx)
    (offExit : e.index ≠ cfg.exitBootServicesIdx) :
    efiSummary cfg callingEFIAppDigest separatorInfo (done ++ [e]) =
      efiSummary cfg callingEFIAppDigest separatorInfo done := by
  simp [efiSummary, appDigests, IsSeparatorOn, IsCallingEvent, offApp, offExit]

theorem efiStep_summary_next (done : List Event) (e : Event) (state : EfiScan) :
    efiStep cfg callingEFIAppDigest exitBootSvcDigest separatorInfo
        (efiSummary cfg callingEFIAppDigest separatorInfo done) e = .ok (.next state) ↔
      EfiPasses cfg callingEFIAppDigest exitBootSvcDigest separatorInfo done e ∧
        state = efiSummary cfg callingEFIAppDigest separatorInfo (done ++ [e]) := by
  rw [efiStep]
  by_cases off : e.index ≠ cfg.efiAppIdx ∧ e.index ≠ cfg.exitBootServicesIdx
  · rw [if_pos off, efiSummary_append_off cfg callingEFIAppDigest separatorInfo done e off.1 off.2]
    simp [EfiPasses, off.1, off.2, eq_comm]
  · rw [if_neg off, bind_eq_ok]
    simp only [efiAppPart_summary, and_assoc, exists_and_left, exists_eq_left,
      efiExitPart_summary_next, EfiPasses]

theorem efiStep_summary_stop (done : List Event) (e : Event) (state : EfiScan) :
    efiStep cfg callingEFIAppDigest exitBootSvcDigest separatorInfo
        (efiSummary cfg callingEFIAppDigest separatorInfo done) e = .ok (.stop state) ↔
      EfiBreaks cfg callingEFIAppDigest exitBootSvcDigest separatorInfo done e ∧
        state = { efiSummaryAfterApp cfg callingEFIAppDigest separatorInfo done e with
          seenExitBootServices := true } := by
  rw [efiStep]
  by_cases off : e.index ≠ cfg.efiAppIdx ∧ e.index ≠ cfg.exitBootServicesIdx
  · rw [if_pos off]
    simp [EfiBreaks, off.2]
  · rw [if_neg off, bind_eq_ok]
    simp only [efiAppPart_summary, and_assoc, exists_and_left, exists_eq_left,
      efiExitPart_summary_stop, EfiBreaks]
    tauto

theorem efiSummaryAfterApp_efiAppStates_of_breaks (done : List Event) (x : Event)
    (breaks : EfiBreaks cfg callingEFIAppDigest exitBootSvcDigest separatorInfo done x) :
    (efiSummaryAfterApp cfg callingEFIAppDigest separatorInfo done x).efiAppStates = appDigests cfg done := by
  have notApp : x.type ≠ EventType.efiBootServicesApplication := breaks.2.2.1 ▸ by decide
  simp [efiSummaryAfterApp, efiSummary, appDigests, notApp]

theorem efiSummary_nil :
    efiSummary cfg callingEFIAppDigest separatorInfo [] = ⟨[], false, false, false, false⟩ := rfl

theorem forRange_efiStep_eq_ok (events : List Event) (final : EfiScan) :
    forRange (efiStep cfg callingEFIAppDigest exitBootSvcDigest separatorInfo)
        ⟨[], false, false, false, false⟩ events = .ok final ↔
      (EachPasses (EfiPasses cfg callingEFIAppDigest exitBootSvcDigest separatorInfo) [] events ∧
        final = efiSummary cfg callingEFIAppDigest separatorInfo events) ∨
      ∃ pre x post, events = pre ++ x :: post ∧
        EachPasses (EfiPasses cfg callingEFIAppDigest exitBootSvcDigest separatorInfo) [] pre ∧
        EfiBreaks cfg callingEFIAppDigest exitBootSvcDigest separatorInfo pre x ∧
        final = { efiSummaryAfterApp cfg callingEFIAppDigest separatorInfo pre x with
          seenExitBootServices := true } := by
  rw [← efiSummary_nil cfg callingEFIAppDigest separatorInfo]
  simpa using forRange_eq_ok_iff_of_summary (efiSummary cfg callingEFIAppDigest separatorInfo)
    (EfiBreaks cfg callingEFIAppDigest exitBootSvcDigest separatorInfo)
    (fun done e => { efiSummaryAfterApp cfg callingEFIAppDigest separatorInfo done e with
      seenExitBootServices := true })
    (efiStep_summary_next cfg callingEFIAppDigest exitBootSvcDigest separatorInfo)
    (efiStep_summary_stop cfg callingEFIAppDigest exitBootSvcDigest separatorInfo) [] events final

end Accepted

/-- **When `EfiState` reports a state.** It reports `s` exactly when the log splits at an event
`x` that `EfiBreaks` describes, the ExitBootServices action, after events `pre` that each pass
the checks of their registers, given the events before them, and `EfiDriverState` succeeds on
the whole log; `s` holds the applications of `pre` and the drivers `EfiDriverState` found. -/
theorem efiState_eq_some_iff (H : Hasher) (hash : Hash) (helpers : Helpers) (events : List Event)
    (cfg : RegisterConfig) (s : EfiState) :
    efiState H hash helpers events cfg = .ok (some s) ↔
      ∃ pre x post drivers, events = pre ++ x :: post ∧
        EachPasses (EfiPasses cfg (H.sum hash callingEFIApplication)
          (H.sum hash exitBootServicesInvocation) (getSeparatorInfo H hash)) [] pre ∧
        EfiBreaks cfg (H.sum hash callingEFIApplication) (H.sum hash exitBootServicesInvocation)
          (getSeparatorInfo H hash) pre x ∧
        efiDriverState helpers events cfg = .ok drivers ∧
        s = { apps := appDigests cfg pre, bootServicesDrivers := drivers.bootServicesDrivers,
              runtimeServicesDrivers := drivers.runtimeServicesDrivers } := by
  simp only [efiState, bind_eq_ok, forRange_efiStep_eq_ok]
  constructor
  · rintro ⟨st, ⟨_, rfl⟩ | ⟨pre, x, post, split, each, breaks, rfl⟩, rest⟩
    · simp [efiSummary, pure, Except.pure] at rest
    · simp only [bind_eq_ok, pure, Except.pure, Except.ok.injEq, Option.some.injEq, if_true] at rest
      obtain ⟨drivers, driversOk, rfl⟩ := rest
      exact ⟨pre, x, post, drivers, split, each, breaks, driversOk,
        by rw [efiSummaryAfterApp_efiAppStates_of_breaks _ _ _ _ _ _ breaks]⟩
  · rintro ⟨pre, x, post, drivers, rfl, each, breaks, driversOk, rfl⟩
    refine ⟨_, .inr ⟨pre, x, post, rfl, each, breaks, rfl⟩, ?_⟩
    simp [driversOk, efiSummaryAfterApp_efiAppStates_of_breaks _ _ _ _ _ _ breaks, bind, Except.bind,
      pure, Except.pure]

/-- **When `EfiState` reports no state.** Exactly when every event passes the checks of its
registers, given the events before it: the loop then runs to the end of the log without meeting
the ExitBootServices action. -/
theorem efiState_eq_none_iff (H : Hasher) (hash : Hash) (helpers : Helpers) (events : List Event)
    (cfg : RegisterConfig) :
    efiState H hash helpers events cfg = .ok none ↔
      EachPasses (EfiPasses cfg (H.sum hash callingEFIApplication)
        (H.sum hash exitBootServicesInvocation) (getSeparatorInfo H hash)) [] events := by
  simp only [efiState, bind_eq_ok, forRange_efiStep_eq_ok]
  constructor
  · rintro ⟨st, ⟨each, rfl⟩ | ⟨pre, x, post, split, each, breaks, rfl⟩, rest⟩
    · exact each
    · simp [bind_eq_ok, pure, Except.pure] at rest
  · intro each
    exact ⟨_, .inl ⟨each, rfl⟩, by simp [efiSummary, pure, Except.pure]⟩


end MeasuredBoot
