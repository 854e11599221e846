import Mathlib.Data.Nat.Digits
import MeasuredBoot.Extract.Scan

/-!
The platform extractor and the GCE decoders of package `wellknown` it calls. `platformState`
reads register 0 up to its first valid separator; the firmware version is the GCE version that
`convertSCRTMVersionToGCEFirmwareVersion` decodes from the S-CRTM version string, or that string
itself when it is not a GCE one.
-/

namespace MeasuredBoot

/-! ### `strconv.Atoi` -/

/-- The number that ASCII decimal digits spell, accumulated as Go's `strconv.Atoi` does. -/
def decimalValue (digits : Bytes) : Nat := digits.foldl (fun n ch => n * 10 + (ch - 48).toNat) 0

/-- Go's `strconv.Atoi` on a 64-bit platform: an optional sign, then at least one ASCII decimal
digit, in the range of `int`. -/
def atoi (s : Bytes) : Except GoError Int :=
  let (negative, digits) : Bool × Bytes := match s with
    | 0x2D :: rest => (true, rest)
    | 0x2B :: rest => (false, rest)
    | _ => (false, s)
  let quoted := formatBytesAsString s
  if digits = [] ∨ digits.any (fun ch => ch - 48 > 9) then
    .error (.failed s!"strconv.Atoi: parsing \"{quoted}\": invalid syntax")
  else
    let n := decimalValue digits
    if negative then
      if n ≤ 2 ^ 63 then .ok (-n)
      else .error (.failed s!"strconv.Atoi: parsing \"{quoted}\": value out of range")
    else if n < 2 ^ 63 then .ok n
    else .error (.failed s!"strconv.Atoi: parsing \"{quoted}\": value out of range")

/-- Go's `strconv.Itoa` on a natural number: its decimal digits in ASCII. -/
def itoa (n : Nat) : Bytes := (Nat.toDigits 10 n).map fun c => c.toNat.toUInt8

theorem digitChar_toUInt8 : ∀ k < 10, (Nat.digitChar k).toNat.toUInt8 = (48 + k).toUInt8 := by
  decide

theorem digitByte : ∀ k < 10, ((48 + k).toUInt8 - 48).toNat = k ∧ ¬(48 + k).toUInt8 - 48 > 9 ∧
    (48 + k).toUInt8 ≠ 0x2D ∧ (48 + k).toUInt8 ≠ 0x2B ∧ (48 + k).toUInt8 ≠ 0 := by
  decide

theorem toDigitsCore_succ (fuel n : Nat) (ds : List Char) :
    Nat.toDigitsCore 10 (fuel + 1) n ds =
      if n / 10 = 0 then Nat.digitChar (n % 10) :: ds
      else Nat.toDigitsCore 10 fuel (n / 10) (Nat.digitChar (n % 10) :: ds) :=
  rfl

theorem toDigitsCore_decimal (fuel n : Nat) (ds : List Char) (enough : n < fuel) :
    ∃ ks : List Nat, ks ≠ [] ∧ (∀ k ∈ ks, k < 10) ∧ (n ≠ 0 → ks.head? ≠ some 0) ∧
      ks.foldl (fun acc k => acc * 10 + k) 0 = n ∧
      Nat.toDigitsCore 10 fuel n ds = ks.map Nat.digitChar ++ ds := by
  induction fuel generalizing n ds with
  | zero => omega
  | succ fuel ih =>
      rw [toDigitsCore_succ]
      by_cases last : n / 10 = 0
      · rw [if_pos last]
        exact ⟨[n % 10], by simp, by simp; omega, by simp; omega, by simp; omega, rfl⟩
      · rw [if_neg last]
        obtain ⟨ks, nonempty, digits, lead, value, eq⟩ :=
          ih (n / 10) (Nat.digitChar (n % 10) :: ds) (by omega)
        refine ⟨ks ++ [n % 10], by simp, fun k mem => ?_,
          fun _ => by rw [List.head?_append_of_ne_nil _ nonempty]; exact lead last, ?_, by rw [eq]; simp⟩
        · rcases List.mem_append.1 mem with old | new
          · exact digits k old
          · rw [List.mem_singleton.1 new]; omega
        · rw [List.foldl_append, value]; simp; omega

theorem itoa_eq (n : Nat) :
    ∃ ks : List Nat, ks ≠ [] ∧ (∀ k ∈ ks, k < 10) ∧ (n ≠ 0 → ks.head? ≠ some 0) ∧
      ks.foldl (fun acc k => acc * 10 + k) 0 = n ∧ itoa n = ks.map fun k => (48 + k).toUInt8 := by
  obtain ⟨ks, nonempty, digits, lead, value, eq⟩ := toDigitsCore_decimal (n + 1) n [] (by omega)
  refine ⟨ks, nonempty, digits, lead, value, ?_⟩
  rw [itoa, show Nat.toDigits 10 n = Nat.toDigitsCore 10 (n + 1) n [] from rfl, eq, List.append_nil,
    List.map_map]
  exact List.map_congr_left fun k mem => digitChar_toUInt8 k (digits k mem)

theorem foldl_decimal (ks : List Nat) (acc : Nat) :
    ks.foldl (fun acc k => acc * 10 + k) acc = acc * 10 ^ ks.length + Nat.ofDigits 10 ks.reverse := by
  induction ks generalizing acc with
  | nil => simp
  | cons k rest ih =>
      rw [List.foldl_cons, ih, List.reverse_cons, Nat.ofDigits_append, List.length_cons,
        List.length_reverse, Nat.ofDigits_singleton, pow_succ]
      ring

theorem reverse_eq_digits (ks : List Nat) (digits : ∀ k ∈ ks, k < 10) (lead : ks.head? ≠ some 0) :
    ks.reverse = Nat.digits 10 (ks.foldl (fun acc k => acc * 10 + k) 0) := by
  rw [foldl_decimal, zero_mul, zero_add,
    Nat.digits_ofDigits 10 (by norm_num) _ (by simpa using digits)]
  intro nonempty
  rw [List.getLast_reverse]
  cases ks with
  | nil => simp at nonempty
  | cons k rest => simpa using lead

theorem itoa_eq_digits (n : Nat) (pos : n ≠ 0) :
    itoa n = (Nat.digits 10 n).reverse.map fun k => (48 + k).toUInt8 := by
  obtain ⟨ks, -, digits, lead, value, eq⟩ := itoa_eq n
  have spelled := reverse_eq_digits ks digits (lead pos)
  rw [value] at spelled
  rw [eq, ← spelled, List.reverse_reverse]

theorem decimalValue_digits (ks : List Nat) (digits : ∀ k ∈ ks, k < 10) :
    decimalValue (ks.map fun k => (48 + k).toUInt8) = ks.foldl (fun acc k => acc * 10 + k) 0 := by
  suffices from_acc : ∀ acc, (ks.map fun k => (48 + k).toUInt8).foldl
      (fun n ch => n * 10 + (ch - 48).toNat) acc = ks.foldl (fun acc k => acc * 10 + k) acc from
    from_acc 0
  induction ks with
  | nil => exact fun _ => rfl
  | cons k rest ih =>
      intro acc
      simp only [List.map_cons, List.foldl_cons]
      rw [(digitByte k (digits k (List.mem_cons_self k rest))).1]
      exact ih (fun k mem => digits k (List.mem_cons_of_mem _ mem)) _

theorem atoi_digits (ks : List Nat) (nonempty : ks ≠ []) (digits : ∀ k ∈ ks, k < 10)
    (small : ks.foldl (fun acc k => acc * 10 + k) 0 < 2 ^ 63) :
    atoi (ks.map fun k => (48 + k).toUInt8) = .ok (ks.foldl (fun acc k => acc * 10 + k) 0 : Nat) := by
  obtain ⟨k, rest, rfl⟩ := List.exists_cons_of_ne_nil nonempty
  obtain ⟨-, -, minus, plus, -⟩ := digitByte k (digits k (List.mem_cons_self k rest))
  have valid : (((48 + k).toUInt8 :: rest.map fun k => (48 + k).toUInt8).any
      fun ch => ch - 48 > 9) = false := by
    simp only [List.any_eq_false, List.mem_cons, List.mem_map]
    rintro _ (rfl | ⟨j, mem, rfl⟩)
    · exact fun h => (digitByte k (digits k (List.mem_cons_self k rest))).2.1 (of_decide_eq_true h)
    · exact fun h => (digitByte j (digits j (List.mem_cons_of_mem _ mem))).2.1 (of_decide_eq_true h)
  unfold atoi
  rw [List.map_cons]
  split
  rename_i negative tail signed
  split at signed
  next _ _ sign => exact absurd (List.cons.inj sign).1 minus
  next _ _ sign => exact absurd (List.cons.inj sign).1 plus
  cases signed
  have value := decimalValue_digits (k :: rest) digits
  rw [List.map_cons] at value
  dsimp only
  rw [if_neg (by simp [valid]), if_neg Bool.false_ne_true, value]
  exact if_pos small

theorem asciiDigit_iff (b : UInt8) : ¬b - 48 > 9 ↔ 48 ≤ b.toNat ∧ b.toNat ≤ 57 := by
  have sub := UInt8.toNat_sub b 48
  have small := b.toNat_lt_size
  show ¬(9 : UInt8).toNat < (b - 48).toNat ↔ _
  rw [sub]
  simp only [UInt8.size, UInt8.toNat_ofNat, Nat.reduceMod] at small ⊢
  omega

theorem atoi_eq_ok (s : Bytes) (n : Int) (parsed : atoi s = .ok n) :
    ∃ sign digits : Bytes, s = sign ++ digits ∧ (sign = [] ∨ sign = [0x2D] ∨ sign = [0x2B]) ∧
      digits ≠ [] ∧ (∀ b ∈ digits, 48 ≤ b.toNat ∧ b.toNat ≤ 57) ∧
      n = if sign = [0x2D] then -(decimalValue digits : Int) else decimalValue digits := by
  unfold atoi at parsed
  split at parsed
  rename_i negative digits signed
  obtain ⟨wellFormed, parsed⟩ := guard_eq_ok parsed
  simp only [not_or, List.any_eq_true, decide_eq_true_eq, not_exists, not_and] at wellFormed
  have valid : ∀ b ∈ digits, 48 ≤ b.toNat ∧ b.toNat ≤ 57 :=
    fun b mem => (asciiDigit_iff b).1 (wellFormed.2 b mem)
  have value : n = if negative then -(decimalValue digits : Int) else decimalValue digits := by
    cases negative <;> simp only [Bool.false_eq_true, if_false, if_true] at parsed <;>
      split_ifs at parsed <;> cases parsed <;> rfl
  split at signed
  · cases signed; exact ⟨[0x2D], _, rfl, by simp, wellFormed.1, valid, value⟩
  · cases signed; exact ⟨[0x2B], _, rfl, by simp, wellFormed.1, valid, value⟩
  · cases signed; exact ⟨[], _, rfl, by simp, wellFormed.1, valid, value⟩

/-! ### Package `wellknown` -/

/-- `GceVirtualFirmwarePrefix`: "GCE Virtual Firmware v" in little-endian UCS-2, with no NUL
terminator. -/
def gceVirtualFirmwarePrefix : Bytes :=
  [0x47, 0x00, 0x43, 0x00, 0x45, 0x00, 0x20, 0x00, 0x56, 0x00, 0x69, 0x00, 0x72, 0x00,
   0x74, 0x00, 0x75, 0x00, 0x61, 0x00, 0x6c, 0x00, 0x20, 0x00, 0x46, 0x00, 0x69, 0x00,
   0x72, 0x00, 0x6d, 0x00, 0x77, 0x00, 0x61, 0x00, 0x72, 0x00, 0x65, 0x00, 0x20, 0x00,
   0x76, 0x00]

/-- `GCENonHostInfoSignature`. -/
def gceNonHostInfoSignature : Bytes := asciiz "GCE NonHostInfo"

/-- The loop of `ConvertSCRTMVersionToGCEFirmwareVersion` over the bytes after the prefix, each
with its position: NUL bytes are skipped, and every other byte must sit at an even position. -/
def ucs2Step (asciiVersion : Bytes) : Nat × UInt8 → Except GoError (Flow Bytes)
  | (i, b) =>
      if b = 0 then .ok (.next asciiVersion)
      else if i % 2 ≠ 0 then .error (.failed "invalid UCS-2 in the version string")
      else .ok (.next (asciiVersion ++ [b]))

/-- `ConvertSCRTMVersionToGCEFirmwareVersion`; the result is a `uint32`, the number modulo 2^32. -/
def convertSCRTMVersionToGCEFirmwareVersion (version : Bytes) : Except GoError Nat := do
  let prefixLen := gceVirtualFirmwarePrefix.length
  if version.length ≤ prefixLen ∨ version.length % 2 ≠ 0 then
    throw (.failed s!"length of GCE version ({version.length}) is invalid")
  if version.take prefixLen ≠ gceVirtualFirmwarePrefix then
    throw (.failed "prefix for GCE version is missing")
  let asciiVersion ← forRange ucs2Step [] (version.drop prefixLen).enum
  match atoi asciiVersion with
  | .error err => throw (.failed s!"when parsing GCE firmware version: {err.text}")
  | .ok versionNum => pure (versionNum % 4294967296).toNat

/-- `ConvertGCEFirmwareVersionToSCRTMVersion`: the version in little-endian UCS-2 after the
prefix, with a NUL terminator; version 0 is the empty string. -/
def convertGCEFirmwareVersionToSCRTMVersion (version : UInt32) : Bytes :=
  if version = 0 then []
  else gceVirtualFirmwarePrefix ++ (itoa version.toNat).flatMap (fun b => [b, 0]) ++ [0, 0]

theorem forRange_ucs2Step (chars : Bytes) (nonzero : ∀ b ∈ chars, b ≠ 0) (acc : Bytes) (k : Nat)
    (even : k % 2 = 0) :
    forRange ucs2Step acc (List.enumFrom k (chars.flatMap (fun b => [b, 0]) ++ [0, 0])) =
      .ok (acc ++ chars) := by
  induction chars generalizing acc k with
  | nil => simp [List.enumFrom_cons, forRange, ucs2Step]
  | cons b rest ih =>
      have : b ≠ 0 := nonzero b (List.mem_cons_self b rest)
      rw [List.flatMap_cons, List.append_assoc, List.cons_append, List.cons_append, List.nil_append,
        List.enumFrom_cons, List.enumFrom_cons]
      simp only [forRange, ucs2Step, if_neg this, even, ne_eq, not_true_eq_false, if_false, if_true]
      rw [ih (fun b mem => nonzero b (List.mem_cons_of_mem _ mem)) _ (k + 1 + 1) (by omega)]
      simp

theorem forRange_ucs2Step_eq_ok (bytes acc out : Bytes) (k : Nat)
    (ran : forRange ucs2Step acc (List.enumFrom k bytes) = .ok out) :
    out = acc ++ bytes.filter (· ≠ 0) := by
  induction bytes generalizing acc k with
  | nil => exact (Except.ok.inj ran).symm.trans (List.append_nil acc).symm
  | cons b rest ih =>
      rw [List.enumFrom_cons] at ran
      by_cases nul : b = 0
      · simp only [forRange, ucs2Step, if_pos nul] at ran
        rw [ih acc (k + 1) ran, List.filter_cons_of_neg (by simpa using nul)]
      · simp only [forRange, ucs2Step, if_neg nul] at ran
        split_ifs at ran
        rw [ih _ (k + 1) ran, List.filter_cons_of_pos (by simpa using nul)]
        simp

theorem length_flatMap_pair (l : Bytes) : (l.flatMap fun b => [b, 0]).length = 2 * l.length := by
  induction l with
  | nil => rfl
  | cons b rest ih => rw [List.flatMap_cons, List.length_append, ih]; simp; omega

theorem convertSCRTMVersionToGCEFirmwareVersion_digits (ks : List Nat) (nonempty : ks ≠ [])
    (digits : ∀ k ∈ ks, k < 10) (small : ks.foldl (fun acc k => acc * 10 + k) 0 < 2 ^ 63) :
    convertSCRTMVersionToGCEFirmwareVersion (gceVirtualFirmwarePrefix ++
        (ks.map fun k => (48 + k).toUInt8).flatMap (fun b => [b, 0]) ++ [0, 0]) =
      .ok (ks.foldl (fun acc k => acc * 10 + k) 0 % 4294967296) := by
  have nonzeroBytes : ∀ b ∈ ks.map fun k => (48 + k).toUInt8, b ≠ 0 := by
    simp only [List.mem_map]
    rintro _ ⟨k, mem, rfl⟩
    exact (digitByte k (digits k mem)).2.2.2.2
  have parsed := atoi_digits ks nonempty digits small
  rw [List.append_assoc]
  generalize ks.foldl (fun acc k => acc * 10 + k) 0 = n at parsed
  generalize ks.map (fun k => (48 + k).toUInt8) = ascii at nonzeroBytes parsed
  have loop := forRange_ucs2Step ascii nonzeroBytes [] 0 rfl
  have payloadLength : (ascii.flatMap (fun b => [b, 0]) ++ [0, 0]).length = 2 * ascii.length + 2 := by
    rw [List.length_append, length_flatMap_pair]; rfl
  generalize ascii.flatMap (fun b => [b, 0]) ++ [0, 0] = payload at loop payloadLength
  have lengthOk : ¬((gceVirtualFirmwarePrefix ++ payload).length ≤ gceVirtualFirmwarePrefix.length ∨
      (gceVirtualFirmwarePrefix ++ payload).length % 2 ≠ 0) := by
    have prefixLength : gceVirtualFirmwarePrefix.length = 44 := rfl
    rw [List.length_append, payloadLength, prefixLength]; omega
  unfold convertSCRTMVersionToGCEFirmwareVersion
  dsimp only
  rw [if_neg lengthOk, List.take_left, if_neg (not_not_intro rfl), List.drop_left, List.enum_eq_enumFrom,
    loop, List.nil_append]
  simp only [bind, Except.bind, parsed]
  exact congrArg Except.ok (by omega)

/-- The version strings `ConvertGCEFirmwareVersionToSCRTMVersion` writes: the prefix, then the
ASCII decimal digits of a nonzero `uint32` with no sign and no leading zero, each followed by a
NUL, then a NUL terminator. -/
def CanonicalVersionString (s : Bytes) : Prop :=
  ∃ ks : List Nat, ks ≠ [] ∧ (∀ k ∈ ks, k < 10) ∧ ks.head? ≠ some 0 ∧
    ks.foldl (fun acc k => acc * 10 + k) 0 < 2 ^ 32 ∧
    s = gceVirtualFirmwarePrefix ++ (ks.map fun k => (48 + k).toUInt8).flatMap (fun b => [b, 0]) ++ [0, 0]

/-- **The GCE firmware version round trip, over every byte string.** A version string decodes to
a version that `ConvertGCEFirmwareVersionToSCRTMVersion` writes back as the same string exactly
when it is in the writer's form. A sign, a leading zero, a value past `2 ^ 32` or a NUL out of
its UCS-2 place all decode to a version whose string is another one. -/
theorem gceFirmwareVersion_roundTrip (s : Bytes) :
    (∃ v, convertSCRTMVersionToGCEFirmwareVersion s = .ok v ∧
      convertGCEFirmwareVersionToSCRTMVersion v.toUInt32 = s) ↔ CanonicalVersionString s := by
  constructor
  · rintro ⟨v, decoded, encoded⟩
    by_cases zero : v.toUInt32 = 0
    · rw [convertGCEFirmwareVersionToSCRTMVersion, if_pos zero] at encoded
      subst encoded
      unfold convertSCRTMVersionToGCEFirmwareVersion at decoded
      exact absurd (.inl (Nat.zero_le _)) (guard_eq_ok decoded).1
    have pos : v.toUInt32.toNat ≠ 0 := fun isZero => zero (UInt32.ext isZero)
    have value : ((Nat.digits 10 v.toUInt32.toNat).reverse).foldl (fun acc k => acc * 10 + k) 0 =
        v.toUInt32.toNat := by
      rw [foldl_decimal, List.reverse_reverse, Nat.ofDigits_digits]; simp
    rw [convertGCEFirmwareVersionToSCRTMVersion, if_neg zero, itoa_eq_digits _ pos] at encoded
    refine ⟨_, by simpa using Nat.digits_ne_nil_iff_ne_zero.2 pos,
      fun k mem => Nat.digits_lt_base (by norm_num) (List.mem_reverse.1 mem), ?_,
      by rw [value]; exact v.toUInt32.toNat_lt, encoded.symm⟩
    rw [List.head?_reverse, List.getLast?_eq_getLast _ (Nat.digits_ne_nil_iff_ne_zero.2 pos)]
    exact fun last => Nat.getLast_digit_ne_zero 10 pos (Option.some.inj last)
  · rintro ⟨ks, nonempty, digits, lead, small, rfl⟩
    have spelled := reverse_eq_digits ks digits lead
    generalize value : ks.foldl (fun acc k => acc * 10 + k) 0 = n at small spelled
    have pos : n ≠ 0 := fun isZero => nonempty (by simpa [isZero] using spelled)
    have decoded := convertSCRTMVersionToGCEFirmwareVersion_digits ks nonempty digits (by omega)
    rw [value] at decoded
    refine ⟨_, decoded, ?_⟩
    have fits : (n % 4294967296).toUInt32.toNat = n :=
      (UInt32.toNat_ofNat_of_lt (by simpa [UInt32.size] using Nat.mod_lt n (by norm_num))).trans
        (Nat.mod_eq_of_lt small)
    have nonzero : (n % 4294967296).toUInt32 ≠ 0 := fun isZero => pos (by rw [← fits, isZero]; rfl)
    rw [convertGCEFirmwareVersionToSCRTMVersion, if_neg nonzero, fits, itoa_eq_digits n pos,
      ← spelled, List.reverse_reverse]

/-- **What a decoded version spells.** A version string that decodes starts with the prefix, and
its bytes after the prefix, NULs removed, are an optional sign and ASCII decimal digits; the
version is their value, negated after a minus sign, modulo `2 ^ 32`. -/
theorem convertSCRTMVersionToGCEFirmwareVersion_eq_ok (s : Bytes) (v : Nat)
    (decoded : convertSCRTMVersionToGCEFirmwareVersion s = .ok v) :
    gceVirtualFirmwarePrefix <+: s ∧
    ∃ sign digits : Bytes, (s.drop gceVirtualFirmwarePrefix.length).filter (· ≠ 0) = sign ++ digits ∧
      (sign = [] ∨ sign = [0x2D] ∨ sign = [0x2B]) ∧ digits ≠ [] ∧
      (∀ b ∈ digits, 48 ≤ b.toNat ∧ b.toNat ≤ 57) ∧
      v = ((if sign = [0x2D] then -(decimalValue digits : Int) else decimalValue digits) %
        4294967296).toNat := by
  unfold convertSCRTMVersionToGCEFirmwareVersion at decoded
  dsimp only at decoded
  obtain ⟨-, decoded⟩ := guard_eq_ok decoded
  obtain ⟨prefixed, decoded⟩ := guard_eq_ok decoded
  obtain ⟨-, -, decoded⟩ := (bind_eq_ok _ _ _).1 decoded
  obtain ⟨ascii, ran, decoded⟩ := (bind_eq_ok _ _ _).1 decoded
  rw [List.enum_eq_enumFrom] at ran
  have collected := forRange_ucs2Step_eq_ok _ [] ascii 0 ran
  split at decoded
  · cases decoded
  rename_i n parsed
  cases decoded
  obtain ⟨sign, digits, spelled, signs, nonempty, valid, value⟩ := atoi_eq_ok _ _ parsed
  refine ⟨List.prefix_iff_eq_take.2 (not_not.1 prefixed).symm, sign, digits, ?_, signs, nonempty,
    valid, by rw [value]⟩
  rw [← spelled, collected, List.nil_append]

/-- The version string of "-1": a sign where the digits should start. -/
def signedVersionString : Bytes := gceVirtualFirmwarePrefix ++ [0x2D, 0, 0x31, 0, 0, 0]

/-- The version string of "4294967296", one more than the largest `uint32`. -/
def overflowingVersionString : Bytes :=
  gceVirtualFirmwarePrefix ++ [0x34, 0, 0x32, 0, 0x39, 0, 0x34, 0, 0x39, 0, 0x36, 0, 0x37, 0, 0x32, 0,
    0x39, 0, 0x36, 0, 0, 0]

theorem convertSCRTMVersionToGCEFirmwareVersion_eq_ok_signed :
    convertSCRTMVersionToGCEFirmwareVersion signedVersionString = .ok 4294967295 ∧
      gceVirtualFirmwarePrefix <+: signedVersionString ∧
      ∃ sign digits : Bytes,
        (signedVersionString.drop gceVirtualFirmwarePrefix.length).filter (· ≠ 0) = sign ++ digits ∧
        (sign = [] ∨ sign = [0x2D] ∨ sign = [0x2B]) ∧ digits ≠ [] ∧
        (∀ b ∈ digits, 48 ≤ b.toNat ∧ b.toNat ≤ 57) ∧
        4294967295 = ((if sign = [0x2D] then -(decimalValue digits : Int) else decimalValue digits) %
          4294967296).toNat :=
  have decoded : convertSCRTMVersionToGCEFirmwareVersion signedVersionString = .ok 4294967295 := by
    decide
  ⟨decoded, convertSCRTMVersionToGCEFirmwareVersion_eq_ok _ _ decoded⟩

/-- **Versions the string does not spell.** The decoder takes "-1" for the largest `uint32`, and
"4294967296" for 0. -/
theorem convertSCRTMVersionToGCEFirmwareVersion_wraps :
    convertSCRTMVersionToGCEFirmwareVersion signedVersionString = .ok 4294967295 ∧
      convertSCRTMVersionToGCEFirmwareVersion overflowingVersionString = .ok 0 :=
  ⟨by decide, by decide⟩

/-- `ParseGCENonHostInfo`: the confidential technology byte after the signature. The length check
keeps the byte read within the data. -/
def parseGCENonHostInfo (nonHostInfo : Bytes) : Except GoError Nat :=
  let prefixLen := gceNonHostInfoSignature.length
  if nonHostInfo.length < prefixLen + 1 then
    .error (.failed s!"length of GCE Non-Host info ({nonHostInfo.length}) is too short")
  else if nonHostInfo.take prefixLen ≠ gceNonHostInfoSignature then
    .error (.failed "prefix for GCE Non-Host info is missing")
  else
    let tech := nonHostInfo.getD prefixLen 0
    if tech > 4 then .error (.failed s!"unknown GCE Confidential Technology: {tech}")
    else .ok tech.toNat

/-! ### `PlatformState` -/

/-- The state of the loop of `PlatformState`. -/
structure PlatformScan where
  versionString : Bytes
  nonHostInfo : Bytes

/-- One pass of the loop of `PlatformState`: it breaks at the first valid separator of register
0. -/
def platformStep (sepInfo : SeparatorInfo) (st : PlatformScan) (event : Event) :
    Except GoError (Flow PlatformScan) :=
  let index := event.index
  if index ≠ 0 then .ok (.next st) else do
  let evtType := event.type
  let isSeparator ← checkIfValidSeparator event sepInfo
  if isSeparator then pure (.stop st) else
  let st ← (if evtType = EventType.scrtmVersion then
      if !event.digestVerified then .error (.failed s!"invalid SCRTM version event for PCR{index}")
      else .ok { st with versionString := event.data }
    else .ok st)
  if evtType = EventType.nonhostInfo then
    if !event.digestVerified then .error (.failed s!"invalid Non-Host info event for PCR{index}")
    else .ok (.next { st with nonHostInfo := event.data })
  else .ok (.next st)

/-- `PlatformState`. The technology stays `NONE` when the non-host info is not a GCE one. -/
def platformState (H : Hasher) (hash : Hash) (events : List Event) : Except GoError PlatformState := do
  let sepInfo := getSeparatorInfo H hash
  let st ← forRange (platformStep sepInfo) ⟨[], []⟩ events
  let firmware := match convertSCRTMVersionToGCEFirmwareVersion st.versionString with
    | .ok gceVersion => Firmware.gceVersion gceVersion
    | .error _ => Firmware.scrtmVersionId st.versionString
  let technology := match parseGCENonHostInfo st.nonHostInfo with
    | .ok tech => tech
    | .error _ => 0
  pure ⟨firmware, technology⟩

theorem platformStep_off_platform (sepInfo : SeparatorInfo) (st : PlatformScan) (e : Event)
    (off : e.index ≠ 0) : platformStep sepInfo st e = .ok (.next st) := by
  unfold platformStep
  exact if_pos off

theorem platformStep_separator (sepInfo : SeparatorInfo) (st : PlatformScan) (e : Event)
    (onPlatform : e.index = 0) (valid : checkIfValidSeparator e sepInfo = .ok true) :
    platformStep sepInfo st e = .ok (.stop st) := by
  unfold platformStep
  rw [if_neg (not_not_intro onPlatform)]
  simp only [valid]
  rfl

/-- **The platform register seals at its separator.** Events after a valid separator of register
0 do not change `PlatformState`'s result, nor do events of other registers, wherever they are. -/
theorem platformState_sealed (H : Hasher) (hash : Hash) :
    (∀ (P : List Event) (x : Event) (S : List Event), x.index = 0 →
      x.type = EventType.separator → x.digestVerified = true →
      (x.data = [0, 0, 0, 0] ∨ x.data = [0xff, 0xff, 0xff, 0xff]) →
      platformState H hash (P ++ [x] ++ S) = platformState H hash (P ++ [x])) ∧
    ∀ E1 E2 : List Event, E1.filter (fun e => e.index = 0) = E2.filter (fun e => e.index = 0) →
      platformState H hash E1 = platformState H hash E2 := by
  constructor
  · intro P x S onPlatform typed verified data
    have valid : checkIfValidSeparator x (getSeparatorInfo H hash) = .ok true :=
      (checkIfValidSeparator_eq_true _ _).2 ⟨typed, verified, by simpa [getSeparatorInfo] using data⟩
    unfold platformState
    dsimp only
    rw [List.append_assoc, List.singleton_append, forRange_append_of_breaks x
      (fun st => ⟨st, platformStep_separator _ st x onPlatform valid⟩)]
  · intro E1 E2 same
    have onPlatform (E : List Event) :
        forRange (platformStep (getSeparatorInfo H hash)) ⟨[], []⟩ E =
          forRange (platformStep (getSeparatorInfo H hash)) ⟨[], []⟩
            (E.filter fun e => e.index = 0) :=
      (forRange_filter _ (fun st e off => platformStep_off_platform _ st e (by simpa using off)) _ E).symm
    unfold platformState
    dsimp only
    rw [onPlatform E1, onPlatform E2, same]

theorem platformState_sealed_tagged :
    (0 = 0 ∧ EventType.separator = EventType.separator ∧ true = true ∧
      ([0, 0, 0, 0] : Bytes) = [0, 0, 0, 0] ∧
      platformState Hasher.tagged .sha256
          ([] ++ [⟨0, 0, EventType.separator, [0, 0, 0, 0], [], true⟩] ++
            [⟨1, 0, EventType.scrtmVersion, [1], [], true⟩]) =
        platformState Hasher.tagged .sha256 ([] ++ [⟨0, 0, EventType.separator, [0, 0, 0, 0], [], true⟩])) ∧
    (([⟨0, 7, EventType.scrtmVersion, [1], [], true⟩] : List Event).filter (fun e => e.index = 0) =
        ([] : List Event).filter (fun e => e.index = 0) ∧
      platformState Hasher.tagged .sha256 [⟨0, 7, EventType.scrtmVersion, [1], [], true⟩] =
        platformState Hasher.tagged .sha256 []) :=
  ⟨⟨rfl, rfl, rfl, rfl, (platformState_sealed Hasher.tagged .sha256).1 [] _ _ rfl rfl rfl (.inl rfl)⟩,
    ⟨rfl, (platformState_sealed Hasher.tagged .sha256).2 _ [] rfl⟩⟩

/-! ### What `PlatformState` reports -/

/-- The state a pass of the platform loop leaves when it goes on: on register 0, the data of an
S-CRTM version or non-host info event replaces the data held. -/
def platformScanned (st : PlatformScan) (e : Event) : PlatformScan :=
  if e.index ≠ 0 then st
  else { versionString := if e.type = EventType.scrtmVersion then e.data else st.versionString,
         nonHostInfo := if e.type = EventType.nonhostInfo then e.data else st.nonHostInfo }

/-- An event the platform loop goes on after: off register 0, or no separator there and, for an
S-CRTM version or non-host info event, a verified one. -/
def PlatformPasses (sepInfo : SeparatorInfo) (e : Event) : Prop :=
  e.index = 0 → checkIfValidSeparator e sepInfo = .ok false ∧
    (e.type = EventType.scrtmVersion ∨ e.type = EventType.nonhostInfo → e.digestVerified = true)

/-- The event the platform loop breaks at: a valid separator of register 0. -/
def PlatformBreaks (sepInfo : SeparatorInfo) (e : Event) : Prop :=
  e.index = 0 ∧ checkIfValidSeparator e sepInfo = .ok true

/-- The state `PlatformState` builds its result from, after its loop. -/
def platformResult (st : PlatformScan) : PlatformState :=
  let firmware := match convertSCRTMVersionToGCEFirmwareVersion st.versionString with
    | .ok gceVersion => Firmware.gceVersion gceVersion
    | .error _ => Firmware.scrtmVersionId st.versionString
  let technology := match parseGCENonHostInfo st.nonHostInfo with
    | .ok tech => tech
    | .error _ => 0
  ⟨firmware, technology⟩

/-- The data of the last event of register 0 with the given type, if there is one. -/
def lastPlatformData (type : Nat) (events : List Event) (default : Bytes) : Bytes :=
  (((events.filter fun e => e.index = 0 ∧ e.type = type).getLast?).map Event.data).getD default

theorem platformStep_passes (sepInfo : SeparatorInfo) (st : PlatformScan) (e : Event)
    (passes : PlatformPasses sepInfo e) : platformStep sepInfo st e = .ok (.next (platformScanned st e)) := by
  by_cases off : e.index = 0
  · obtain ⟨notSeparator, verified⟩ := passes off
    have apart : EventType.scrtmVersion ≠ EventType.nonhostInfo := by decide
    unfold platformStep platformScanned
    simp only [off, ne_eq, not_true_eq_false, if_false, notSeparator, bind, Except.bind]
    by_cases scrtm : e.type = EventType.scrtmVersion
    · simp [scrtm, apart, verified (.inl scrtm), pure, Except.pure]
    by_cases nonhost : e.type = EventType.nonhostInfo
    · simp [nonhost, Ne.symm apart, verified (.inr nonhost), pure, Except.pure]
    · simp [scrtm, nonhost, pure, Except.pure]
  · rw [platformStep_off_platform _ _ _ off, platformScanned, if_pos off]

theorem platformStep_fails (sepInfo : SeparatorInfo) (st : PlatformScan) (e : Event)
    (fails : ¬PlatformPasses sepInfo e) (goesOn : ¬PlatformBreaks sepInfo e) :
    ∃ err, platformStep sepInfo st e = .error err := by
  simp only [PlatformPasses, PlatformBreaks, Classical.not_imp, not_and] at fails goesOn
  obtain ⟨onPlatform, fails⟩ := fails
  have unchecked := goesOn onPlatform
  unfold platformStep
  simp only [onPlatform, ne_eq, not_true_eq_false, if_false, bind, Except.bind]
  rcases checked : checkIfValidSeparator e sepInfo with err | _ | _
  · exact ⟨err, rfl⟩
  · have unverified := fails checked
    simp only [Classical.not_imp] at unverified
    obtain ⟨typed | typed, unverified⟩ := unverified <;>
      simp [typed, unverified, EventType.scrtmVersion, EventType.nonhostInfo]
  · exact absurd checked unchecked

theorem foldl_platformScanned (events : List Event) (st : PlatformScan) :
    events.foldl platformScanned st =
      ⟨lastPlatformData EventType.scrtmVersion events st.versionString,
        lastPlatformData EventType.nonhostInfo events st.nonHostInfo⟩ := by
  induction events using List.reverseRecOn with
  | nil => rfl
  | append_singleton events e ih =>
      rw [List.foldl_append, ih]
      simp only [List.foldl_cons, List.foldl_nil, platformScanned, lastPlatformData, List.filter_append,
        List.getLast?_append, ne_eq]
      have apart : EventType.scrtmVersion ≠ EventType.nonhostInfo := by decide
      by_cases onPlatform : e.index = 0
      · by_cases scrtm : e.type = EventType.scrtmVersion
        · simp [onPlatform, scrtm, apart, List.filter_cons]
        by_cases nonhost : e.type = EventType.nonhostInfo
        · simp [onPlatform, nonhost, Ne.symm apart, List.filter_cons]
        · simp [onPlatform, scrtm, nonhost, List.filter_cons]
      · simp [onPlatform, List.filter_cons]

/-- **What `PlatformState` reports.** It succeeds exactly when the log is `pre ++ rest`, where
every register-0 event of `pre` is no separator and, if it is an S-CRTM version or non-host info
event, is verified, and `rest` is empty or begins with a valid separator of register 0. The
firmware and technology are then read from the last S-CRTM version and non-host info events of
register 0 in `pre`. -/
theorem platformState_eq_ok (H : Hasher) (hash : Hash) (events : List Event) (s : PlatformState) :
    platformState H hash events = .ok s ↔ ∃ pre rest, events = pre ++ rest ∧
      (∀ e ∈ pre, PlatformPasses (getSeparatorInfo H hash) e) ∧
      (∀ e ∈ rest.head?, PlatformBreaks (getSeparatorInfo H hash) e) ∧
      s = platformResult ⟨lastPlatformData EventType.scrtmVersion pre [],
        lastPlatformData EventType.nonhostInfo pre []⟩ := by
  have loop := forRange_eq_ok_iff_of_breaks (PlatformPasses (getSeparatorInfo H hash))
    (PlatformBreaks (getSeparatorInfo H hash)) platformScanned
    (platformStep_passes _) (fun st e ⟨onPlatform, valid⟩ => platformStep_separator _ st e onPlatform valid)
    (platformStep_fails _) ⟨[], []⟩
  have split : platformState H hash events =
      (forRange (platformStep (getSeparatorInfo H hash)) ⟨[], []⟩ events).bind
        fun st => .ok (platformResult st) := rfl
  rw [split]
  constructor
  · intro reported
    obtain ⟨st, ran, made⟩ := (bind_eq_ok _ _ _).1 reported
    obtain ⟨pre, rest, rfl, passed, broke, rfl⟩ := (loop _ _).1 ran
    exact ⟨pre, rest, rfl, passed, broke, by rw [← Except.ok.inj made, foldl_platformScanned]⟩
  · rintro ⟨pre, rest, rfl, passed, broke, rfl⟩
    rw [(loop _ _).2 ⟨pre, rest, rfl, passed, broke, rfl⟩, foldl_platformScanned]
    rfl

end MeasuredBoot
