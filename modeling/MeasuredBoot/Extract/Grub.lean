import MeasuredBoot.Extract.Platform

/-!
The GRUB extractors, the kernel command line read from their commands, and the TPM register
configuration that ties the extractors to registers. A GRUB command is kept only if its digest
is the hash of the data after its prefix, with or without a final NUL.
-/

namespace MeasuredBoot

def newGrubKernelCmdlinePrefix : Bytes := ascii "kernel_cmdline: "

def oldGrubKernelCmdlinePrefix : Bytes := ascii "grub_kernel_cmdline "

/-- `validPrefixes`, in the order they are tried. -/
def validPrefixes : List Bytes :=
  [ascii "grub_cmd: ", newGrubKernelCmdlinePrefix, ascii "module_cmdline: ",
   oldGrubKernelCmdlinePrefix, ascii "grub_cmd "]

/-- The loop over prefixes that both GRUB extractors and `getGrubKernelCmdlineSuffix` run: the
length of the first prefix the data starts with, or -1. -/
def prefixSuffixAt (prefixes : List Bytes) (data : Bytes) : Int :=
  match prefixes.find? (hasPrefix data) with
  | some pre => pre.length
  | none => -1

/-- Modelled from the spec: `verifyDataDigest`, whether the digest is the hash of the data. -/
def verifyDataDigest (H : Hasher) (hash : Hash) (data digest : Bytes) : Option GoError :=
  if digest = H.sum hash data then none else some (.failed s!"invalid digest: {digest}")

/-- Modelled from the spec and from its test: `verifyNullTerminatedDataDigest`, whether the data
ends in NUL and the digest is the hash of the data with or without that NUL. -/
def verifyNullTerminatedDataDigest (H : Hasher) (hash : Hash) (data digest : Bytes) :
    Option GoError :=
  if data.getLast? ≠ some 0 then some (.failed "data is not null-terminated")
  else match verifyDataDigest H hash data digest with
    | none => none
    | some _ => verifyDataDigest H hash data.dropLast digest

/-- The digest check both GRUB extractors run on a prefixed command, on the data after the
prefix. -/
def verifyGrubCommand (H : Hasher) (hash : Hash) (eventNum : Nat) (rawData : Bytes)
    (suffixAt : Nat) (digest : Bytes) : Option GoError :=
  let suffix := rawData.drop suffixAt
  if suffix.length > 0 ∧ rawData.getLast? = some 0 then
    (verifyNullTerminatedDataDigest H hash suffix digest).map fun err =>
      .failed s!"invalid GRUB event (null-terminated) #{eventNum}: {err.text}"
  else
    (verifyDataDigest H hash suffix digest).map fun err =>
      .failed s!"invalid GRUB event #{eventNum}: {err.text}"

/-! ### `GrubStateFromTPMLog` and `GrubStateFromRTMRLog` -/

/-- The state of the loop of `GrubStateFromTPMLog`. -/
structure GrubScan where
  files : List GrubFile
  commands : List Bytes

/-- One pass of the loop of `GrubStateFromTPMLog`, over an event and its position: commands from
register 8, files from register 9. -/
def grubTPMStep (H : Hasher) (hash : Hash) (st : GrubScan) : Nat × Event → Except GoError (Flow GrubScan)
  | (eventNum, event) =>
      let index := event.index
      if index ≠ 8 ∧ index ≠ 9 then .ok (.next st)
      else if event.type = EventType.eventTag then .ok (.next st)
      else if event.type ≠ EventType.ipl then
        .error (.failed s!"invalid event type for PCR{index}, expected EV_IPL")
      else if index = 9 then
        .ok (.next { st with files := st.files ++ [⟨event.digest, event.data⟩] })
      else
        let suffixAt := prefixSuffixAt validPrefixes event.data
        if suffixAt = -1 then
          .error (.failed
            s!"invalid prefix seen for PCR{index} event: {formatBytesAsString event.data}")
        else match verifyGrubCommand H hash eventNum event.data suffixAt.toNat event.digest with
          | some err => .error err
          | none => .ok (.next { st with commands := st.commands ++ [event.data] })

/-- `GrubStateFromTPMLog`. -/
def grubStateFromTPMLog (H : Hasher) (hash : Hash) (events : List Event) :
    Except GoError GrubState := do
  let st ← forRange (grubTPMStep H hash) ⟨[], []⟩ events.enum
  if st.files.length = 0 ∧ st.commands.length = 0 then
    throw (.failed "no GRUB measurements found")
  pure ⟨st.files, st.commands⟩

/-- One pass of the loop of `GrubStateFromRTMRLog`: commands from register 3; unlike the TPM
extractor, a command with no valid prefix is skipped. -/
def grubRTMRStep (H : Hasher) (hash : Hash) (commands : List Bytes) :
    Nat × Event → Except GoError (Flow (List Bytes))
  | (eventNum, event) =>
      let ccMRIndex := event.index
      if ccMRIndex ≠ 3 then .ok (.next commands)
      else if event.type = EventType.eventTag then .ok (.next commands)
      else if event.type ≠ EventType.ipl then
        .error (.failed s!"invalid event type {event.type} for PCR{ccMRIndex}, expected EV_IPL")
      else
        let suffixAt := prefixSuffixAt validPrefixes event.data
        if suffixAt = -1 then .ok (.next commands)
        else match verifyGrubCommand H hash eventNum event.data suffixAt.toNat event.digest with
          | some err => .error err
          | none => .ok (.next (commands ++ [event.data]))

/-- `GrubStateFromRTMRLog`. -/
def grubStateFromRTMRLog (H : Hasher) (hash : Hash) (events : List Event) :
    Except GoError GrubState := do
  let commands ← forRange (grubRTMRStep H hash) [] events.enum
  if commands.length = 0 then throw (.failed "no GRUB measurements found")
  pure ⟨[], commands⟩

/-! ### `LinuxKernelStateFromGRUB` -/

/-- `getGrubKernelCmdlineSuffix`. -/
def getGrubKernelCmdlineSuffix (grubCmd : Bytes) : Int :=
  prefixSuffixAt [oldGrubKernelCmdlinePrefix, newGrubKernelCmdlinePrefix] grubCmd

/-- The state of the loop of `LinuxKernelStateFromGRUB`. -/
structure KernelScan where
  cmdline : Bytes
  seen : Bool

/-- One pass of the loop of `LinuxKernelStateFromGRUB`. -/
def kernelStep (st : KernelScan) (command : Bytes) : Except GoError (Flow KernelScan) :=
  let suffixAt := getGrubKernelCmdlineSuffix command
  if suffixAt = -1 then .ok (.next st)
  else if st.seen then .error (.failed "more than one kernel commandline in GRUB commands")
  else .ok (.next ⟨command.drop suffixAt.toNat, true⟩)

/-- `LinuxKernelStateFromGRUB`; a nil GRUB state has no commands. -/
def linuxKernelStateFromGRUB (grub : Option GrubState) : Except GoError LinuxKernelState := do
  let st ← forRange kernelStep ⟨[], false⟩ ((grub.map GrubState.commands).getD [])
  pure ⟨st.cmdline⟩

/-- The commands that carry a kernel command line. -/
def kernelCommands (commands : List Bytes) : List Bytes :=
  commands.filter fun c => getGrubKernelCmdlineSuffix c ≠ -1

theorem forRange_kernelStep (cmdline : Bytes) (seen : Bool) (commands : List Bytes) (st : KernelScan) :
    forRange kernelStep ⟨cmdline, seen⟩ commands = .ok st ↔
      match kernelCommands commands with
      | [] => st = ⟨cmdline, seen⟩
      | [c] => seen = false ∧ st = ⟨c.drop (getGrubKernelCmdlineSuffix c).toNat, true⟩
      | _ :: _ :: _ => False := by
  induction commands generalizing cmdline seen with
  | nil => exact ⟨fun ran => (Except.ok.inj ran).symm, fun same => by rw [same]; rfl⟩
  | cons c rest ih =>
      by_cases plain : getGrubKernelCmdlineSuffix c = -1
      · have skipped : kernelStep ⟨cmdline, seen⟩ c = .ok (.next ⟨cmdline, seen⟩) := by
          rw [kernelStep, if_pos plain]
        rw [forRange, skipped, kernelCommands, List.filter_cons_of_neg (by simpa using plain)]
        exact ih cmdline seen
      · have kept : kernelCommands (c :: rest) = c :: kernelCommands rest := by
          rw [kernelCommands, List.filter_cons_of_pos (by simpa using plain)]; rfl
        rw [kept]
        cases seen with
        | true =>
            have twice : kernelStep ⟨cmdline, true⟩ c =
                .error (.failed "more than one kernel commandline in GRUB commands") := by
              rw [kernelStep, if_neg plain, if_pos rfl]
            rw [forRange, twice]
            cases kernelCommands rest <;> simp
        | false =>
            have first : kernelStep ⟨cmdline, false⟩ c =
                .ok (.next ⟨c.drop (getGrubKernelCmdlineSuffix c).toNat, true⟩) := by
              rw [kernelStep, if_neg plain, if_neg Bool.false_ne_true]
            rw [forRange, first, ih]
            rcases kernelCommands rest with _ | ⟨c', _ | ⟨c'', more⟩⟩ <;> simp

/-- **What `LinuxKernelStateFromGRUB` reports.** It succeeds exactly when at most one GRUB command
carries a kernel command line prefix; the command line is the rest of that command, or empty
when there is none. -/
theorem linuxKernelStateFromGRUB_eq_ok (grub : Option GrubState) (k : LinuxKernelState) :
    linuxKernelStateFromGRUB grub = .ok k ↔
      (kernelCommands ((grub.map GrubState.commands).getD []) = [] ∧ k = ⟨[]⟩) ∨
      ∃ c, kernelCommands ((grub.map GrubState.commands).getD []) = [c] ∧
        k = ⟨c.drop (getGrubKernelCmdlineSuffix c).toNat⟩ := by
  unfold linuxKernelStateFromGRUB
  simp only [bind_eq_ok, forRange_kernelStep]
  rcases kernelCommands ((grub.map GrubState.commands).getD []) with _ | ⟨c, _ | ⟨c', more⟩⟩ <;>
    simp [pure, Except.pure, eq_comm]

/-! ### Register configurations -/

/-- Modelled from the spec's register table: `TPMRegisterConfig`, whose declaration is not among
the sources. Its name, which only error texts read, is the register kind. -/
def tpmRegisterConfig : RegisterConfig where
  name := "PCR"
  firmwareDriverIdx := 2
  efiAppIdx := 4
  exitBootServicesIdx := 5
  platformExtracter := platformState
  grubExtracter := grubStateFromTPMLog
  logType := 1

/-! ### What the GRUB extractors accept -/

/-- A command's data starts with one of the recognised prefixes. -/
def HasValidPrefix (data : Bytes) : Prop := ∃ pre ∈ validPrefixes, pre <+: data

instance (data : Bytes) : Decidable (HasValidPrefix data) :=
  inferInstanceAs (Decidable (∃ pre ∈ validPrefixes, pre <+: data))

/-- A GRUB command's digest covers `s`, the data after the prefix, or `s` without its final NUL. -/
def DigestCovers (H : Hasher) (hash : Hash) (s digest : Bytes) : Prop :=
  digest = H.sum hash s ∨ (s ≠ [] ∧ s.getLast? = some 0 ∧ digest = H.sum hash s.dropLast)

/-- A verified GRUB command: a recognised prefix, and a digest that covers the data after it. -/
def CommandVerifies (H : Hasher) (hash : Hash) (data digest : Bytes) : Prop :=
  ∃ pre ∈ validPrefixes, pre <+: data ∧ DigestCovers H hash (data.drop pre.length) digest

theorem validPrefixes_incomparable : ∀ p ∈ validPrefixes, ∀ q ∈ validPrefixes, p <+: q → p = q := by
  decide

theorem validPrefix_unique {p q data : Bytes} (hp : p ∈ validPrefixes) (hq : q ∈ validPrefixes)
    (pp : p <+: data) (qp : q <+: data) : p = q := by
  rcases Nat.le_total p.length q.length with le | le
  · exact validPrefixes_incomparable p hp q hq (List.prefix_of_prefix_length_le pp qp le)
  · exact (validPrefixes_incomparable q hq p hp (List.prefix_of_prefix_length_le qp pp le)).symm

theorem prefixSuffixAt_validPrefixes (data : Bytes) :
    (prefixSuffixAt validPrefixes data = -1 ↔ ¬HasValidPrefix data) ∧
      ∀ pre ∈ validPrefixes, pre <+: data → prefixSuffixAt validPrefixes data = pre.length := by
  unfold prefixSuffixAt
  split
  next p found =>
      have mem := List.mem_of_find?_eq_some found
      have pref := (hasPrefix_iff _ _).1 (List.find?_some found)
      exact ⟨⟨fun h => absurd h (by omega), fun h => absurd ⟨p, mem, pref⟩ h⟩,
        fun q hq qp => by rw [validPrefix_unique mem hq pref qp]⟩
  next missing =>
      rw [List.find?_eq_none] at missing
      exact ⟨⟨fun _ ⟨p, mem, pref⟩ => missing p mem ((hasPrefix_iff _ _).2 pref), fun _ => rfl⟩,
        fun q hq qp => absurd ((hasPrefix_iff _ _).2 qp) (missing q hq)⟩

theorem verifyGrubCommand_eq_none (H : Hasher) (hash : Hash) (eventNum : Nat) (rawData : Bytes)
    (suffixAt : Nat) (digest : Bytes) :
    verifyGrubCommand H hash eventNum rawData suffixAt digest = none ↔
      DigestCovers H hash (rawData.drop suffixAt) digest := by
  have last (ne : rawData.drop suffixAt ≠ []) :
      (rawData.drop suffixAt).getLast? = rawData.getLast? := by
    conv_rhs => rw [← List.take_append_drop suffixAt rawData]
    rw [List.getLast?_append_of_ne_nil _ ne]
  unfold verifyGrubCommand
  dsimp only
  split_ifs with terminated
  · have ne := List.ne_nil_of_length_pos terminated.1
    have ends := (last ne).trans terminated.2
    simp only [Option.map_eq_none', verifyNullTerminatedDataDigest, ends, ne_eq, not_true_eq_false,
      if_false, verifyDataDigest, DigestCovers, true_and, not_false_eq_true, ne]
    split <;> simp_all
  · have plain : ¬(rawData.drop suffixAt ≠ [] ∧ (rawData.drop suffixAt).getLast? = some 0) :=
      fun ⟨ne, ends⟩ => terminated ⟨List.length_pos.2 ne, (last ne).symm.trans ends⟩
    simp only [Option.map_eq_none', verifyDataDigest, DigestCovers]
    by_cases covered : digest = H.sum hash (rawData.drop suffixAt)
    · simp [covered]
    · simp only [if_neg covered, reduceCtorEq, false_iff, not_or]
      exact ⟨covered, fun ⟨ne, ends, _⟩ => plain ⟨ne, ends⟩⟩


theorem commandVerifies_iff (H : Hasher) (hash : Hash) (eventNum : Nat) (data digest : Bytes) :
    CommandVerifies H hash data digest ↔ prefixSuffixAt validPrefixes data ≠ -1 ∧
      verifyGrubCommand H hash eventNum data (prefixSuffixAt validPrefixes data).toNat digest = none := by
  constructor
  · rintro ⟨pre, mem, pref, covers⟩
    rw [(prefixSuffixAt_validPrefixes data).2 pre mem pref, verifyGrubCommand_eq_none]
    exact ⟨by omega, by simpa using covers⟩
  · rintro ⟨found, verified⟩
    obtain ⟨pre, mem, pref⟩ := not_not.1 (mt (prefixSuffixAt_validPrefixes data).1.2 found)
    rw [(prefixSuffixAt_validPrefixes data).2 pre mem pref, verifyGrubCommand_eq_none] at verified
    exact ⟨pre, mem, pref, by simpa using verified⟩

section TPM

variable (H : Hasher) (hash : Hash)

/-- What `GrubStateFromTPMLog` requires of an event: on registers 8 and 9, an event tag or an
EV_IPL event, and on register 8 a verified command. -/
def GrubTPMPasses (e : Event) : Prop :=
  (e.index = 8 ∨ e.index = 9) → e.type ≠ EventType.eventTag →
    e.type = EventType.ipl ∧ (e.index = 8 → CommandVerifies H hash e.data e.digest)

/-- What `GrubStateFromTPMLog` keeps of an event that passes. -/
def grubTPMUpdate (st : GrubScan) (e : Event) : GrubScan :=
  if (e.index = 8 ∨ e.index = 9) ∧ e.type ≠ EventType.eventTag then
    if e.index = 9 then { st with files := st.files ++ [⟨e.digest, e.data⟩] }
    else { st with commands := st.commands ++ [e.data] }
  else st

theorem grubTPMStep_passes (st : GrubScan) (n : Nat) (e : Event) (passes : GrubTPMPasses H hash e) :
    grubTPMStep H hash st (n, e) = .ok (.next (grubTPMUpdate st e)) := by
  unfold grubTPMStep grubTPMUpdate
  dsimp only
  by_cases off : e.index ≠ 8 ∧ e.index ≠ 9
  · rw [if_pos off, if_neg (fun inside => by omega)]
  by_cases tag : e.type = EventType.eventTag
  · rw [if_neg off, if_pos tag, if_neg (fun inside => inside.2 tag)]
  have onGrub : e.index = 8 ∨ e.index = 9 := by omega
  obtain ⟨ipl, verifies⟩ := passes onGrub tag
  have inside : (e.index = 8 ∨ e.index = 9) ∧ e.type ≠ EventType.eventTag := ⟨onGrub, tag⟩
  rw [if_neg off, if_neg tag, if_neg (not_not_intro ipl), if_pos inside]
  by_cases nine : e.index = 9
  · rw [if_pos nine, if_pos nine]
  · obtain ⟨found, verified⟩ := (commandVerifies_iff H hash n e.data e.digest).1 (verifies (by omega))
    rw [if_neg nine, if_neg found, verified, if_neg nine]

theorem grubTPMStep_fails (st : GrubScan) (n : Nat) (e : Event) (fails : ¬GrubTPMPasses H hash e) :
    ∃ err, grubTPMStep H hash st (n, e) = .error err := by
  obtain ⟨onGrub, tag, bad⟩ := by simpa only [GrubTPMPasses, Classical.not_imp] using fails
  unfold grubTPMStep
  dsimp only
  rw [if_neg (by omega), if_neg tag]
  by_cases ipl : e.type = EventType.ipl
  · obtain ⟨eight, unverified⟩ := Classical.not_imp.1 (not_and.1 bad ipl)
    rw [if_neg (not_not_intro ipl), if_neg (by omega), commandVerifies_iff H hash n] at *
    by_cases found : prefixSuffixAt validPrefixes e.data = -1
    · rw [if_pos found]; exact ⟨_, rfl⟩
    · rw [if_neg found]
      cases verified : verifyGrubCommand H hash n e.data (prefixSuffixAt validPrefixes e.data).toNat e.digest with
      | none => exact absurd ⟨found, verified⟩ unverified
      | some err => exact ⟨err, rfl⟩
  · rw [if_pos ipl]; exact ⟨_, rfl⟩

theorem foldl_grubTPMUpdate (st : GrubScan) (events : List Event) :
    events.foldl grubTPMUpdate st =
      ⟨st.files ++ (events.filter fun e => e.index = 9 ∧ e.type ≠ EventType.eventTag).map
          fun e => ⟨e.digest, e.data⟩,
        st.commands ++ (events.filter fun e => e.index = 8 ∧ e.type ≠ EventType.eventTag).map
          Event.data⟩ := by
  induction events generalizing st with
  | nil => simp
  | cons e rest ih =>
      rw [List.foldl_cons, ih]
      unfold grubTPMUpdate
      by_cases tag : e.type = EventType.eventTag
      · simp [tag]
      by_cases nine : e.index = 9
      · simp [tag, nine]
      by_cases eight : e.index = 8
      · simp [tag, nine, eight]
      · simp [tag, nine, eight]

theorem grubStateFromTPMLog_eq_ok (events : List Event) (g : GrubState) :
    grubStateFromTPMLog H hash events = .ok g ↔
      (∀ e ∈ events, GrubTPMPasses H hash e) ∧
      (∃ e ∈ events, (e.index = 8 ∨ e.index = 9) ∧ e.type ≠ EventType.eventTag) ∧
      g = ⟨(events.filter fun e => e.index = 9 ∧ e.type ≠ EventType.eventTag).map
          fun e => ⟨e.digest, e.data⟩,
        (events.filter fun e => e.index = 8 ∧ e.type ≠ EventType.eventTag).map Event.data⟩ := by
  have loop := forRange_eq_ok_iff_of_update (fun x : Nat × Event => GrubTPMPasses H hash x.2)
    (fun st x => grubTPMUpdate st x.2) (fun st x passes => grubTPMStep_passes H hash st x.1 x.2 passes)
    (fun st x fails => grubTPMStep_fails H hash st x.1 x.2 fails) ⟨[], []⟩
  have found : ¬((events.filter fun e => e.index = 9 ∧ e.type ≠ EventType.eventTag).length = 0 ∧
      (events.filter fun e => e.index = 8 ∧ e.type ≠ EventType.eventTag).length = 0) ↔
      ∃ e ∈ events, (e.index = 8 ∨ e.index = 9) ∧ e.type ≠ EventType.eventTag := by
    simp only [List.length_eq_zero, List.filter_eq_nil_iff, decide_eq_true_eq]
    constructor
    · intro h
      by_contra none
      exact h ⟨fun e mem inside => none ⟨e, mem, .inr inside.1, inside.2⟩,
        fun e mem inside => none ⟨e, mem, .inl inside.1, inside.2⟩⟩
    · rintro ⟨e, mem, onGrub, tag⟩ ⟨no9, no8⟩
      rcases onGrub with eight | nine
      · exact no8 e mem ⟨eight, tag⟩
      · exact no9 e mem ⟨nine, tag⟩
  unfold grubStateFromTPMLog
  simp only [bind_eq_ok, loop, forall_mem_enum, foldl_enum_snd, foldl_grubTPMUpdate, List.nil_append]
  constructor
  · rintro ⟨st, ⟨passes, rfl⟩, final⟩
    obtain ⟨nonempty, final⟩ := guard_eq_ok final
    simp only [List.length_map] at nonempty
    cases final
    exact ⟨passes, found.1 nonempty, rfl⟩
  · rintro ⟨passes, present, rfl⟩
    refine ⟨_, ⟨passes, rfl⟩, ?_⟩
    rw [if_neg (by simpa only [List.length_map] using found.2 present)]
    rfl

end TPM

section RTMR

variable (H : Hasher) (hash : Hash)

/-- What `GrubStateFromRTMRLog` requires of an event: on index 3, an event tag or an EV_IPL event,
verified if it has a recognised prefix. -/
def GrubRTMRPasses (e : Event) : Prop :=
  e.index = 3 → e.type ≠ EventType.eventTag →
    e.type = EventType.ipl ∧ (HasValidPrefix e.data → CommandVerifies H hash e.data e.digest)

/-- What `GrubStateFromRTMRLog` keeps of an event that passes. -/
def grubRTMRUpdate (commands : List Bytes) (e : Event) : List Bytes :=
  if e.index = 3 ∧ e.type ≠ EventType.eventTag ∧ HasValidPrefix e.data then commands ++ [e.data]
  else commands

theorem grubRTMRStep_passes (commands : List Bytes) (n : Nat) (e : Event)
    (passes : GrubRTMRPasses H hash e) :
    grubRTMRStep H hash commands (n, e) = .ok (.next (grubRTMRUpdate commands e)) := by
  unfold grubRTMRStep grubRTMRUpdate
  dsimp only
  by_cases off : e.index ≠ 3
  · rw [if_pos off, if_neg (fun inside => off inside.1)]
  by_cases tag : e.type = EventType.eventTag
  · rw [if_neg off, if_pos tag, if_neg (fun inside => inside.2.1 tag)]
  obtain ⟨ipl, verifies⟩ := passes (not_not.1 off) tag
  rw [if_neg off, if_neg tag, if_neg (not_not_intro ipl)]
  by_cases prefixed : HasValidPrefix e.data
  · obtain ⟨found, verified⟩ := (commandVerifies_iff H hash n e.data e.digest).1 (verifies prefixed)
    have inside : e.index = 3 ∧ e.type ≠ EventType.eventTag ∧ HasValidPrefix e.data :=
      ⟨not_not.1 off, tag, prefixed⟩
    rw [if_neg found, verified, if_pos inside]
  · rw [if_pos ((prefixSuffixAt_validPrefixes e.data).1.2 prefixed),
      if_neg (fun inside => prefixed inside.2.2)]

theorem grubRTMRStep_fails (commands : List Bytes) (n : Nat) (e : Event)
    (fails : ¬GrubRTMRPasses H hash e) : ∃ err, grubRTMRStep H hash commands (n, e) = .error err := by
  obtain ⟨three, tag, bad⟩ := by simpa only [GrubRTMRPasses, Classical.not_imp] using fails
  unfold grubRTMRStep
  dsimp only
  rw [if_neg (not_not_intro three), if_neg tag]
  by_cases ipl : e.type = EventType.ipl
  · obtain ⟨prefixed, unverified⟩ := Classical.not_imp.1 (not_and.1 bad ipl)
    have found : prefixSuffixAt validPrefixes e.data ≠ -1 :=
      fun missing => (prefixSuffixAt_validPrefixes e.data).1.1 missing prefixed
    rw [commandVerifies_iff H hash n] at unverified
    rw [if_neg (not_not_intro ipl), if_neg found]
    cases verified : verifyGrubCommand H hash n e.data (prefixSuffixAt validPrefixes e.data).toNat e.digest with
    | none => exact absurd ⟨found, verified⟩ unverified
    | some err => exact ⟨err, rfl⟩
  · rw [if_pos ipl]; exact ⟨_, rfl⟩

theorem foldl_grubRTMRUpdate (commands : List Bytes) (events : List Event) :
    events.foldl grubRTMRUpdate commands = commands ++
      (events.filter fun e => e.index = 3 ∧ e.type ≠ EventType.eventTag ∧ HasValidPrefix e.data).map
        Event.data := by
  induction events generalizing commands with
  | nil => simp
  | cons e rest ih =>
      rw [List.foldl_cons, ih]
      unfold grubRTMRUpdate
      by_cases kept : e.index = 3 ∧ e.type ≠ EventType.eventTag ∧ HasValidPrefix e.data
      · simp [kept]
      · simp only [if_neg kept, List.filter_cons, decide_eq_true_eq, kept, if_false]

theorem grubStateFromRTMRLog_eq_ok (events : List Event) (g : GrubState) :
    grubStateFromRTMRLog H hash events = .ok g ↔
      (∀ e ∈ events, GrubRTMRPasses H hash e) ∧
      (∃ e ∈ events, e.index = 3 ∧ e.type ≠ EventType.eventTag ∧ HasValidPrefix e.data) ∧
      g = ⟨[], (events.filter fun e => e.index = 3 ∧ e.type ≠ EventType.eventTag ∧
        HasValidPrefix e.data).map Event.data⟩ := by
  have loop := forRange_eq_ok_iff_of_update (fun x : Nat × Event => GrubRTMRPasses H hash x.2)
    (fun cs x => grubRTMRUpdate cs x.2) (fun cs x passes => grubRTMRStep_passes H hash cs x.1 x.2 passes)
    (fun cs x fails => grubRTMRStep_fails H hash cs x.1 x.2 fails) []
  have found : ¬((events.filter fun e => e.index = 3 ∧ e.type ≠ EventType.eventTag ∧
      HasValidPrefix e.data).map Event.data).length = 0 ↔
      ∃ e ∈ events, e.index = 3 ∧ e.type ≠ EventType.eventTag ∧ HasValidPrefix e.data := by
    simp only [List.length_map, List.length_eq_zero, List.filter_eq_nil_iff, decide_eq_true_eq]
    exact ⟨fun h => by by_contra none; exact h fun e mem kept => none ⟨e, mem, kept⟩,
      fun ⟨e, mem, kept⟩ none => none e mem kept⟩
  unfold grubStateFromRTMRLog
  simp only [bind_eq_ok, loop, forall_mem_enum, foldl_enum_snd, foldl_grubRTMRUpdate, List.nil_append]
  constructor
  · rintro ⟨cs, ⟨passes, rfl⟩, final⟩
    obtain ⟨nonempty, final⟩ := guard_eq_ok final
    cases final
    exact ⟨passes, found.1 nonempty, rfl⟩
  · rintro ⟨passes, present, rfl⟩
    exact ⟨_, ⟨passes, rfl⟩, by rw [if_neg (found.2 present)]; rfl⟩

end RTMR

/-- **What the GRUB extractors accept.** `GrubStateFromTPMLog` succeeds exactly when every event
of registers 8 and 9 but event tags is EV_IPL, every such command of register 8 verifies, and
there is one such event at least; it returns their files and commands in log order.
`GrubStateFromRTMRLog` is the same on index 3, except that a command with no recognised prefix
is skipped, and it returns no files. -/
theorem grubState_characterisation (H : Hasher) (hash : Hash) (events : List Event) (g : GrubState) :
    (grubStateFromTPMLog H hash events = .ok g ↔
      (∀ e ∈ events, (e.index = 8 ∨ e.index = 9) → e.type ≠ EventType.eventTag →
        e.type = EventType.ipl) ∧
      (∀ e ∈ events, e.index = 8 → e.type ≠ EventType.eventTag →
        CommandVerifies H hash e.data e.digest) ∧
      (∃ e ∈ events, (e.index = 8 ∨ e.index = 9) ∧ e.type ≠ EventType.eventTag) ∧
      g = ⟨(events.filter fun e => e.index = 9 ∧ e.type ≠ EventType.eventTag).map
          fun e => ⟨e.digest, e.data⟩,
        (events.filter fun e => e.index = 8 ∧ e.type ≠ EventType.eventTag).map Event.data⟩) ∧
    (grubStateFromRTMRLog H hash events = .ok g ↔
      (∀ e ∈ events, e.index = 3 → e.type ≠ EventType.eventTag → e.type = EventType.ipl) ∧
      (∀ e ∈ events, e.index = 3 → e.type ≠ EventType.eventTag → HasValidPrefix e.data →
        CommandVerifies H hash e.data e.digest) ∧
      (∃ e ∈ events, e.index = 3 ∧ e.type ≠ EventType.eventTag ∧ HasValidPrefix e.data) ∧
      g = ⟨[], (events.filter fun e => e.index = 3 ∧ e.type ≠ EventType.eventTag ∧
        HasValidPrefix e.data).map Event.data⟩) := by
  have tpm : (∀ e ∈ events, GrubTPMPasses H hash e) ↔
      (∀ e ∈ events, (e.index = 8 ∨ e.index = 9) → e.type ≠ EventType.eventTag →
        e.type = EventType.ipl) ∧
      (∀ e ∈ events, e.index = 8 → e.type ≠ EventType.eventTag →
        CommandVerifies H hash e.data e.digest) :=
    ⟨fun all => ⟨fun e mem onGrub tag => (all e mem onGrub tag).1,
        fun e mem eight tag => (all e mem (.inl eight) tag).2 eight⟩,
      fun ⟨ipl, verified⟩ e mem onGrub tag => ⟨ipl e mem onGrub tag, fun eight => verified e mem eight tag⟩⟩
  have rtmr : (∀ e ∈ events, GrubRTMRPasses H hash e) ↔
      (∀ e ∈ events, e.index = 3 → e.type ≠ EventType.eventTag → e.type = EventType.ipl) ∧
      (∀ e ∈ events, e.index = 3 → e.type ≠ EventType.eventTag → HasValidPrefix e.data →
        CommandVerifies H hash e.data e.digest) :=
    ⟨fun all => ⟨fun e mem three tag => (all e mem three tag).1,
        fun e mem three tag => (all e mem three tag).2⟩,
      fun ⟨ipl, verified⟩ e mem three tag => ⟨ipl e mem three tag, verified e mem three tag⟩⟩
  rw [grubStateFromTPMLog_eq_ok, grubStateFromRTMRLog_eq_ok, tpm, rtmr, and_assoc, and_assoc]
  exact ⟨.rfl, .rfl⟩

/-- Two logs that differ at most in the data of events on register 8: the same length, and the
same indices, types, digests and verification flags everywhere. -/
def DifferInGrubCommandData (E1 E2 : List Event) : Prop :=
  List.Forall₂ (fun a b => a.index = b.index ∧ a.type = b.type ∧ a.digest = b.digest ∧
    a.digestVerified = b.digestVerified ∧ (a.index ≠ 8 → a.data = b.data)) E1 E2

/-- A command of register 8 that GRUB measured as "quiet", logged after the prefix `pre`. -/
def quietCommandEvent (H : Hasher) (hash : Hash) (pre : Bytes) : Event :=
  ⟨0, 8, EventType.ipl, pre ++ ascii "quiet", H.sum hash (ascii "quiet"), true⟩

theorem grubStateFromTPMLog_quietCommand (H : Hasher) (hash : Hash) (pre : Bytes)
    (recognised : pre ∈ validPrefixes) :
    grubStateFromTPMLog H hash [quietCommandEvent H hash pre] = .ok ⟨[], [pre ++ ascii "quiet"]⟩ := by
  rw [grubStateFromTPMLog_eq_ok]
  refine ⟨?_, ⟨_, List.mem_singleton_self _, .inl rfl,
    (by decide : EventType.ipl ≠ EventType.eventTag)⟩, rfl⟩
  rintro e mem - -
  rw [List.mem_singleton.1 mem]
  exact ⟨rfl, fun _ => ⟨pre, recognised, List.prefix_append _ _, .inl (by rw [quietCommandEvent, List.drop_left])⟩⟩

/-- **The prefix is not measured.** Whatever the hash, a log whose register-8 command reads
"kernel_cmdline: quiet" and one that reads "grub_cmd: quiet", with the same digest of "quiet",
both pass `GrubStateFromTPMLog`; the first gives the kernel command line "quiet", the second an
empty one. -/
theorem linuxKernelStateFromGRUB_unmeasured_prefix (H : Hasher) (hash : Hash) :
    DifferInGrubCommandData [quietCommandEvent H hash newGrubKernelCmdlinePrefix]
        [quietCommandEvent H hash (ascii "grub_cmd: ")] ∧
      grubStateFromTPMLog H hash [quietCommandEvent H hash newGrubKernelCmdlinePrefix] =
        .ok ⟨[], [newGrubKernelCmdlinePrefix ++ ascii "quiet"]⟩ ∧
      grubStateFromTPMLog H hash [quietCommandEvent H hash (ascii "grub_cmd: ")] =
        .ok ⟨[], [ascii "grub_cmd: " ++ ascii "quiet"]⟩ ∧
      linuxKernelStateFromGRUB (some ⟨[], [newGrubKernelCmdlinePrefix ++ ascii "quiet"]⟩) =
        .ok ⟨ascii "quiet"⟩ ∧
      linuxKernelStateFromGRUB (some ⟨[], [ascii "grub_cmd: " ++ ascii "quiet"]⟩) = .ok ⟨[]⟩ :=
  ⟨.cons ⟨rfl, rfl, rfl, rfl, fun off => absurd rfl off⟩ .nil,
    grubStateFromTPMLog_quietCommand H hash _ (.tail _ (.head _)),
    grubStateFromTPMLog_quietCommand H hash _ (.head _), by decide, by decide⟩

end MeasuredBoot
