import MeasuredBoot.Extract.Efi

/-!
`FirmwareLogState`, which runs every extractor over the log and joins their errors. A failed
extraction leaves its field nil and adds its error; the kernel command line is read from the
GRUB field, nil included.
-/

namespace MeasuredBoot

/-! ### `SecureBootState` -/

/-- `matchWellKnown`, against the well-known certificates in the order the source compares
them. -/
def matchWellKnown (wellKnownCerts : List (Bytes × Nat)) (cert : Bytes) : Except GoError Nat :=
  match wellKnownCerts.find? (fun known => known.1 = cert) with
  | some known => .ok known.2
  | none => .error (.failed "failed to find matching well known certificate")

/-- `convertToPbDatabase`: a well-known certificate by its name, any other by its DER bytes. -/
def convertToPbDatabase (wellKnownCerts : List (Bytes × Nat)) (certs hashes : List Bytes) :
    Database :=
  ⟨certs.map fun cert => match matchWellKnown wellKnownCerts cert with
    | .ok wkEnum => .wellKnown wkEnum
    | .error _ => .der cert, hashes⟩

/-- `SecureBootState`. -/
def secureBootState (helpers : Helpers) (replayEvents : List Event) (registerCfg : RegisterConfig)
    (opts : Opts) : Except GoError SecureBootState := do
  let attestSbState ← match helpers.parseSecurebootState replayEvents registerCfg opts with
    | .error err => throw (.failed s!"failed to parse SecureBootState: {err.text}")
    | .ok attestSbState => pure attestSbState
  if attestSbState.preSeparatorAuthority.length ≠ 0 then
    throw (.failed s!"event log contained {attestSbState.preSeparatorAuthority.length} pre-separator authorities, which are not expected or supported")
  let convert := convertToPbDatabase helpers.wellKnownCerts
  pure { enabled := attestSbState.enabled,
         db := convert attestSbState.permittedKeys attestSbState.permittedHashes,
         dbx := convert attestSbState.forbiddenKeys attestSbState.forbiddenHashes,
         authority := convert attestSbState.postSeparatorAuthority [],
         pk := convert attestSbState.platformKeys attestSbState.platformKeyHashes,
         kek := convert attestSbState.exchangeKeys attestSbState.exchangeKeyHashes }

theorem matchWellKnown_eq_ok (wellKnownCerts : List (Bytes × Nat)) (cert : Bytes) (name : Nat)
    (matched : matchWellKnown wellKnownCerts cert = .ok name) : (cert, name) ∈ wellKnownCerts := by
  unfold matchWellKnown at matched
  split at matched
  · rename_i known found
    cases matched
    have same : known.1 = cert := by simpa using List.find?_some found
    rw [← same]
    exact List.mem_of_find?_eq_some found
  · cases matched

/-- **A reported database names its certificates.** When the well-known certificates have
distinct names, `convertToPbDatabase` gives different databases for different certificate or
hash lists: a certificate is reported by name only if its DER bytes are those of the
certificate with that name. -/
theorem convertToPbDatabase_injective (wellKnownCerts : List (Bytes × Nat))
    (distinct : (wellKnownCerts.map Prod.snd).Nodup) (certs certs' hashes hashes' : List Bytes)
    (same : convertToPbDatabase wellKnownCerts certs hashes = convertToPbDatabase wellKnownCerts certs' hashes') :
    certs = certs' ∧ hashes = hashes' := by
  obtain ⟨reported, rfl⟩ := Database.mk.inj same
  refine ⟨List.map_injective_iff.2 (fun cert cert' represented => ?_) reported, rfl⟩
  cases matched : matchWellKnown wellKnownCerts cert <;>
    cases matched' : matchWellKnown wellKnownCerts cert' <;>
    simp only [matched, matched', reduceCtorEq, Certificate.der.injEq, Certificate.wellKnown.injEq] at represented
  · exact represented
  · subst represented
    exact (Prod.mk.inj (List.inj_on_of_nodup_map distinct (matchWellKnown_eq_ok _ _ _ matched)
      (matchWellKnown_eq_ok _ _ _ matched') rfl)).1

theorem convertToPbDatabase_injective_two :
    ([([1], 1), ([2], 2)].map Prod.snd : List Nat).Nodup ∧
      convertToPbDatabase [([1], 1), ([2], 2)] [[1], [3]] [] =
        convertToPbDatabase [([1], 1), ([2], 2)] [[1], [3]] [] ∧
      ([[1], [3]] : List Bytes) = [[1], [3]] ∧ ([] : List Bytes) = [] :=
  ⟨by decide, rfl, convertToPbDatabase_injective [([1], 1), ([2], 2)] (by decide) [[1], [3]] [[1], [3]] [] [] rfl⟩

/-! ### `FirmwareLogState` -/

/-- What a sub-extraction adds to the joined error. -/
def errorsOf {α : Type} : Except GoError α → List GoError
  | .ok _ => []
  | .error err => [err]

/-- `FirmwareLogState`: the state, and the errors that `errors.Join` joins, in order; no error is
a nil joined error. -/
def firmwareLogState (H : Hasher) (helpers : Helpers) (events : List Event) (hash : Hash)
    (registerCfg : RegisterConfig) (opts : Opts) : Option FirmwareLogState × List GoError :=
  match hash.toAlgorithm with
  | .error err => (none, [err])
  | .ok tcgHash =>
      let platform := registerCfg.platformExtracter H hash events
      let sbState := secureBootState helpers events registerCfg opts
      let efi := efiState H hash helpers events registerCfg
      let grub := if opts.loader = .grub then some (registerCfg.grubExtracter H hash events) else none
      let kernel := grub.map fun grub => linuxKernelStateFromGRUB grub.toOption
      (some { platform := platform.toOption, secureBoot := sbState.toOption, hash := tcgHash,
              grub := grub.bind Except.toOption, linuxKernel := kernel.bind Except.toOption,
              efi := efi.toOption.join, logType := registerCfg.logType },
       errorsOf platform ++ errorsOf sbState ++ errorsOf efi ++ (grub.map errorsOf).getD [] ++
         (kernel.map errorsOf).getD [])

/-- **The kernel command line of a failed GRUB extraction.** With GRUB as loader, a log with no
GRUB measurement gets the GRUB error, a nil GRUB field, and yet a kernel state: the empty command
line that `linuxKernelStateFromGRUB` reads from the nil GRUB state. -/
theorem firmwareLogState_kernel_without_grub (H : Hasher) (helpers : Helpers) (allowEmptySBVar : Bool) :
    ∃ state errs, firmwareLogState H helpers [] .sha256 tpmRegisterConfig ⟨.grub, allowEmptySBVar⟩ =
        (some state, errs) ∧
      grubStateFromTPMLog H .sha256 [] = .error (.failed "no GRUB measurements found") ∧
      state.grub = none ∧ state.linuxKernel = some ⟨[]⟩ ∧
      GoError.failed "no GRUB measurements found" ∈ errs :=
  ⟨_, _, rfl, rfl, rfl, rfl,
    List.mem_append_left _ (List.mem_append_right _ (List.mem_singleton_self _))⟩

end MeasuredBoot
