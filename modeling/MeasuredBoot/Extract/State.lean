import MeasuredBoot.Basic

/-!
The data of package `extract`: the events it reads, the register configuration, and the
messages of `state.proto` it fills in. Package `tcg`, which parses and replays the events, is
not among the sources; what the extractors use of it is modelled here from the spec.
-/

namespace MeasuredBoot

/-- Modelled from the spec: `tcg.Event`, a parsed event whose digest has been replayed against
a verified bank. `MRIndex`, `UntrustedType`, `RawData`, `ReplayedDigest` and `DigestVerified`
read its fields. -/
structure Event where
  num : Nat
  index : Nat
  type : Nat
  data : Bytes
  digest : Bytes
  digestVerified : Bool
  deriving DecidableEq, Repr

namespace EventType

def noAction : Nat := 0x00000003
def separator : Nat := 0x00000004
def eventTag : Nat := 0x00000006
def scrtmVersion : Nat := 0x00000008
def ipl : Nat := 0x0000000D
def nonhostInfo : Nat := 0x00000011
def efiBootServicesApplication : Nat := 0x80000003
def efiBootServicesDriver : Nat := 0x80000004
def efiRuntimeServicesDriver : Nat := 0x80000005
def efiAction : Nat := 0x80000007

/-- Modelled from the spec: the event types of the TCG PC Client Platform Firmware Profile that
`tcg.UntrustedParseEventType` recognises. -/
def known : List Nat :=
  [0x0, 0x1, 0x2, 0x3, 0x4, 0x5, 0x6, 0x7, 0x8, 0x9, 0xA, 0xB, 0xC, 0xD, 0xE, 0xF, 0x10, 0x11, 0x12,
   0x80000000, 0x80000001, 0x80000002, 0x80000003, 0x80000004, 0x80000005, 0x80000006,
   0x80000007, 0x80000008, 0x80000009, 0x8000000A, 0x8000000B, 0x8000000C, 0x80000010, 0x800000E0]

end EventType

/-- Modelled from the spec: `tcg.UntrustedParseEventType`, which rejects unknown event types. -/
def untrustedParseEventType (eventType : Nat) : Except GoError Nat :=
  if eventType ∈ EventType.known then .ok eventType
  else .error (.failed s!"unknown event type {eventType}")

/-- The bytes of an ASCII string, what Go's conversion to a byte slice gives for it. -/
def ascii (s : String) : Bytes := s.toList.map fun c => c.toNat.toUInt8

/-- The bytes of an ASCII string followed by its NUL terminator. -/
def asciiz (s : String) : Bytes := ascii s ++ [0]

/-- Modelled from the spec: `tcg.CallingEFIApplication`. -/
def callingEFIApplication : Bytes := asciiz "Calling EFI Application from Boot Manager"

/-- Modelled from the spec: `tcg.ExitBootServicesInvocation`. -/
def exitBootServicesInvocation : Bytes := asciiz "Exit Boot Services Invocation"

/-! ### `state.proto` -/

inductive Firmware
  | scrtmVersionId (version : Bytes)
  | gceVersion (version : Nat)
  deriving DecidableEq, Repr

structure PlatformState where
  firmware : Firmware
  technology : Nat
  deriving DecidableEq, Repr

structure GrubFile where
  digest : Bytes
  untrustedFilename : Bytes
  deriving DecidableEq, Repr

/-- `GrubState`; a Go string is its bytes. -/
structure GrubState where
  files : List GrubFile
  commands : List Bytes
  deriving DecidableEq, Repr

structure LinuxKernelState where
  commandLine : Bytes
  deriving DecidableEq, Repr

/-- `EfiState`, each `EfiApp` by its digest. -/
structure EfiState where
  apps : List Bytes
  bootServicesDrivers : List Bytes
  runtimeServicesDrivers : List Bytes
  deriving DecidableEq, Repr

inductive Certificate
  | der (raw : Bytes)
  | wellKnown (cert : Nat)
  deriving DecidableEq, Repr

structure Database where
  certs : List Certificate
  hashes : List Bytes
  deriving DecidableEq, Repr

structure SecureBootState where
  enabled : Bool
  db : Database
  dbx : Database
  authority : Database
  pk : Database
  kek : Database
  deriving DecidableEq, Repr

/-- `FirmwareLogState`; `raw_events`, the input converted by `tcg.ConvertToPbEvents`, is left
out. -/
structure FirmwareLogState where
  platform : Option PlatformState
  secureBoot : Option SecureBootState
  hash : UInt16
  grub : Option GrubState
  linuxKernel : Option LinuxKernelState
  efi : Option EfiState
  logType : Nat
  deriving DecidableEq, Repr

/-! ### Options and register configurations -/

inductive Bootloader
  | unsupportedLoader
  | grub
  deriving DecidableEq, Repr

structure Opts where
  loader : Bootloader
  allowEmptySBVar : Bool
  deriving DecidableEq, Repr

/-- `registerConfig`: which registers hold which measurements, and the extractors that differ
between TPM and confidential-computing logs. An extractor returns its state or an error. -/
structure RegisterConfig where
  name : String
  firmwareDriverIdx : Nat
  efiAppIdx : Nat
  exitBootServicesIdx : Nat
  platformExtracter : Hasher → Hash → List Event → Except GoError PlatformState
  grubExtracter : Hasher → Hash → List Event → Except GoError GrubState
  logType : Nat

/-- The Secure Boot variables that `ParseSecurebootState` collects, certificates by their DER
bytes. -/
structure AttestSbState where
  enabled : Bool
  permittedKeys : List Bytes
  permittedHashes : List Bytes
  forbiddenKeys : List Bytes
  forbiddenHashes : List Bytes
  preSeparatorAuthority : List Bytes
  postSeparatorAuthority : List Bytes
  platformKeys : List Bytes
  platformKeyHashes : List Bytes
  exchangeKeys : List Bytes
  exchangeKeyHashes : List Bytes

/-- What the extractors call whose code is not among the sources, taken as given:
`tcg.ParseEFIImageLoad`, `DigestEquals`, `ParseSecurebootState`, and the well-known Secure Boot
certificates embedded in package `wellknown`, each with its `WellKnownCertificate` value. -/
structure Helpers where
  parseEFIImageLoad : Bytes → Option GoError
  digestEquals : Event → Bytes → Option GoError
  parseSecurebootState : List Event → RegisterConfig → Opts → Except GoError AttestSbState
  wellKnownCerts : List (Bytes × Nat)

end MeasuredBoot
