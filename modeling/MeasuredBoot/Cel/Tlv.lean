import MeasuredBoot.Basic

/-!
The TLV encoding of the Canonical Event Log: a type byte, a four-byte big-endian length and the
value. A buffer being read is the list of its unread bytes.

`unmarshalFirstTLV_eq_ok` says exactly what the reader accepts: a buffer that starts with the
encoding of a TLV whose value fits the length field.
-/

namespace MeasuredBoot

/-- `cel.TLV`: the length is implicit in the value and encoded as a big-endian `uint32`. -/
structure TLV where
  type : UInt8
  value : Bytes
  deriving DecidableEq, Repr

def tlvTypeFieldLength : Nat := 1

def tlvLengthFieldLength : Nat := 4

theorem putBigEndian_of_agrees (lengthField : Bytes) (len : Nat) (four : lengthField.length = 4)
    (agrees : bigEndianValue lengthField = len % 2 ^ 32) :
    lengthField = putBigEndian tlvLengthFieldLength len := by
  have spelled := putBigEndian_bigEndianValue lengthField
  have width : (2 : Nat) ^ 32 = 256 ^ 4 := by decide
  rw [four, agrees, width, putBigEndian_mod] at spelled
  exact spelled.symm

namespace TLV

/-- `TLV.MarshalBinary`; it never returns an error. The length field holds `uint32(len(value))`. -/
def marshalBinary (t : TLV) : Bytes :=
  t.type :: putBigEndian tlvLengthFieldLength t.value.length ++ t.value

/-- `TLV.UnmarshalBinary`, reading the whole of `data` as one TLV. -/
def unmarshalBinary (data : Bytes) : Except GoError TLV := do
  let lengthField ← sliceBytes data tlvTypeFieldLength (tlvTypeFieldLength + tlvLengthFieldLength)
  let value ← sliceFrom data (tlvTypeFieldLength + tlvLengthFieldLength)
  if bigEndianValue lengthField ≠ value.length % 2 ^ 32 then
    .error (.failed "TLV Length doesn't match the size of its Value") else do
  let type ← byteAt data 0
  pure { type, value }

@[simp] theorem length_marshalBinary (t : TLV) : t.marshalBinary.length = t.value.length + 5 := by
  simp [marshalBinary, tlvLengthFieldLength]; omega

theorem unmarshalBinary_framed (type : UInt8) (lengthField value : Bytes)
    (four : lengthField.length = 4) :
    unmarshalBinary (type :: lengthField ++ value) =
      if bigEndianValue lengthField = value.length % 2 ^ 32 then .ok { type, value }
      else .error (.failed "TLV Length doesn't match the size of its Value") := by
  obtain ⟨a, b, c, d, rfl⟩ : ∃ a b c d, lengthField = [a, b, c, d] := by
    match lengthField, four with
    | [a, b, c, d], _ => exact ⟨a, b, c, d, rfl⟩
  simp only [unmarshalBinary, sliceBytes, sliceFrom, byteAt, tlvTypeFieldLength,
    tlvLengthFieldLength]
  split <;> simp_all [bind, Except.bind, pure, Except.pure]

theorem unmarshalBinary_short (data : Bytes) (short : data.length < 5) :
    unmarshalBinary data = .error (.panic "slice bounds out of range") := by
  have outside : ¬(tlvTypeFieldLength ≤ tlvTypeFieldLength + tlvLengthFieldLength ∧
      tlvTypeFieldLength + tlvLengthFieldLength ≤ data.length) := by
    simp only [tlvTypeFieldLength, tlvLengthFieldLength]; omega
  simp only [unmarshalBinary, sliceBytes, if_neg outside]
  rfl

theorem framed_of_length (data : Bytes) (long : 5 ≤ data.length) :
    ∃ type lengthField value, lengthField.length = 4 ∧ data = type :: lengthField ++ value := by
  match data, long with
  | type :: a :: b :: c :: d :: value, _ => exact ⟨type, [a, b, c, d], value, rfl, rfl⟩

/-- **What `UnmarshalBinary` accepts, on five bytes or more.** It does not panic there, and it
returns `t` exactly when the data is `t`'s type byte, a four-byte length field and `t`'s value,
with the length field equal to the value's length modulo `2 ^ 32`. -/
theorem unmarshalBinary_framing (data : Bytes) :
    (5 ≤ data.length → panicked (unmarshalBinary data) = false) ∧
    ∀ t : TLV, unmarshalBinary data = .ok t ↔ ∃ lengthField : Bytes, lengthField.length = 4 ∧
      data = t.type :: lengthField ++ t.value ∧ bigEndianValue lengthField = t.value.length % 2 ^ 32 := by
  refine ⟨fun long => ?_, fun t => ⟨fun decoded => ?_, ?_⟩⟩
  · obtain ⟨type, lengthField, value, four, rfl⟩ := framed_of_length data long
    rw [unmarshalBinary_framed type lengthField value four]
    split <;> rfl
  · by_cases long : 5 ≤ data.length
    · obtain ⟨type, lengthField, value, four, rfl⟩ := framed_of_length data long
      rw [unmarshalBinary_framed type lengthField value four] at decoded
      obtain ⟨agrees, decoded⟩ := guard_eq_ok (by rwa [← ite_not] at decoded)
      cases decoded
      exact ⟨lengthField, four, rfl, not_not.1 agrees⟩
    · rw [unmarshalBinary_short data (by omega)] at decoded; cases decoded
  · rintro ⟨lengthField, four, rfl, agrees⟩
    rw [unmarshalBinary_framed _ _ _ four, if_pos agrees]

theorem unmarshalBinary_framing_five :
    5 ≤ [222, 0, 0, 0, 0].length ∧
      panicked (unmarshalBinary [222, 0, 0, 0, 0]) = false :=
  ⟨by decide, (unmarshalBinary_framing [222, 0, 0, 0, 0]).1 (by decide)⟩

theorem unmarshalBinary_marshalBinary (t : TLV) : unmarshalBinary t.marshalBinary = .ok t := by
  have agrees : bigEndianValue (putBigEndian tlvLengthFieldLength t.value.length) =
      t.value.length % 2 ^ 32 := bigEndianValue_putBigEndian _ _
  rw [TLV.marshalBinary, unmarshalBinary_framed _ _ _ (length_putBigEndian tlvLengthFieldLength _),
    if_pos agrees]

theorem marshalBinary_inj {t t' : TLV} (same : t.marshalBinary = t'.marshalBinary) : t = t' :=
  Except.ok.inj ((unmarshalBinary_marshalBinary t).symm.trans (same ▸ unmarshalBinary_marshalBinary t'))

end TLV

/-- `bytes.Buffer.ReadByte` on the unread bytes. -/
def readByte : Bytes → Except GoError (UInt8 × Bytes)
  | [] => .error .eof
  | b :: rest => .ok (b, rest)

/-- `bytes.Buffer.Read` into a slice of `n` bytes: the bytes copied and the unread rest. An
empty buffer reports `io.EOF` unless the slice is empty too. -/
def readBytes (buf : Bytes) (n : Nat) : Except GoError (Bytes × Bytes) :=
  if buf = [] then (if n = 0 then .ok ([], []) else .error .eof)
  else .ok (buf.take n, buf.drop n)

/-- `unmarshalFirstTLV`: the first TLV of the buffer, and the bytes it leaves unread. It reports
`io.EOF` when the buffer ends before the TLV does. -/
def unmarshalFirstTLV (buf : Bytes) : Except GoError (TLV × Bytes) := do
  let (typeByte, buf) ← readByte buf
  let (lengthBytes, buf) ← readBytes buf tlvLengthFieldLength
  if lengthBytes.length ≠ tlvLengthFieldLength then .error .eof else do
  let valueLength := bigEndianValue lengthBytes
  let (valueBytes, buf) ← readBytes buf valueLength
  if valueBytes.length ≠ valueLength then .error .eof else do
  let tlv ← TLV.unmarshalBinary (typeByte :: lengthBytes ++ valueBytes)
  pure (tlv, buf)

theorem readByte_eq_ok (buf rest : Bytes) (b : UInt8) :
    readByte buf = .ok (b, rest) ↔ buf = b :: rest := by
  cases buf <;> simp [readByte]

theorem readBytes_eq_ok (buf taken rest : Bytes) (n : Nat) (full : taken.length = n) :
    readBytes buf n = .ok (taken, rest) ↔ buf = taken ++ rest := by
  unfold readBytes
  by_cases empty : buf = []
  · subst empty
    by_cases zero : n = 0
    · subst zero
      simp only [if_true, Except.ok.injEq, Prod.mk.injEq]
      rw [List.length_eq_zero] at full
      subst full
      constructor
      · rintro ⟨-, rfl⟩; rfl
      · intro h; exact ⟨rfl, (List.nil_eq_append_iff.mp h).2.symm⟩
    · simp only [if_true, zero, if_false, reduceCtorEq, false_iff]
      intro h
      have := congrArg List.length h
      simp at this; omega
  · simp only [empty, if_false, Except.ok.injEq, Prod.mk.injEq]
    constructor
    · rintro ⟨rfl, rfl⟩; exact (List.take_append_drop n buf).symm
    · rintro rfl
      subst full
      simp

theorem unmarshalFirstTLV_eq_ok (buf rest : Bytes) (t : TLV) :
    unmarshalFirstTLV buf = .ok (t, rest) ↔
      t.value.length < 2 ^ 32 ∧ buf = t.marshalBinary ++ rest := by
  constructor
  · intro read
    simp only [unmarshalFirstTLV, bind_eq_ok] at read
    obtain ⟨⟨typeByte, afterType⟩, typeRead, ⟨lengthBytes, afterLength⟩, lengthRead, read⟩ := read
    by_cases four : lengthBytes.length = tlvLengthFieldLength
    swap
    · simp [four] at read
    simp only [four, ne_eq, not_true_eq_false, if_false, bind_eq_ok] at read
    obtain ⟨⟨valueBytes, afterValue⟩, valueRead, read⟩ := read
    by_cases full : valueBytes.length = bigEndianValue lengthBytes
    swap
    · simp [full] at read
    simp only [full, ne_eq, not_true_eq_false, if_false, bind_eq_ok, pure, Except.pure,
      Except.ok.injEq, Prod.mk.injEq] at read
    obtain ⟨tlv, decoded, rfl, rfl⟩ := read
    rw [TLV.unmarshalBinary_framed typeByte lengthBytes valueBytes four] at decoded
    have fits := bigEndianValue_lt lengthBytes
    rw [four] at fits
    by_cases agrees : bigEndianValue lengthBytes = valueBytes.length % 2 ^ 32
    swap
    · rw [if_neg agrees] at decoded; cases decoded
    simp only [agrees, if_true, Except.ok.injEq] at decoded
    subst decoded
    rw [readByte_eq_ok] at typeRead
    dsimp only at lengthRead
    rw [readBytes_eq_ok _ _ _ _ four] at lengthRead
    rw [readBytes_eq_ok _ _ _ _ full] at valueRead
    refine ⟨by rw [full]; simpa [tlvLengthFieldLength] using fits, ?_⟩
    have spelled := putBigEndian_bigEndianValue lengthBytes
    rw [four] at spelled
    rw [typeRead, lengthRead, valueRead, TLV.marshalBinary, full, spelled]
    simp
  · rintro ⟨fits, rfl⟩
    have four : (putBigEndian tlvLengthFieldLength t.value.length).length = tlvLengthFieldLength :=
      length_putBigEndian _ _
    have spelled : bigEndianValue (putBigEndian tlvLengthFieldLength t.value.length) =
        t.value.length := by
      rw [bigEndianValue_putBigEndian]; exact Nat.mod_eq_of_lt (by simpa using fits)
    have typeRead : readByte (t.marshalBinary ++ rest) =
        .ok (t.type, putBigEndian tlvLengthFieldLength t.value.length ++ t.value ++ rest) := by
      simp [TLV.marshalBinary, readByte]
    have lengthRead : readBytes (putBigEndian tlvLengthFieldLength t.value.length ++ (t.value ++ rest))
        tlvLengthFieldLength =
        .ok (putBigEndian tlvLengthFieldLength t.value.length, t.value ++ rest) :=
      (readBytes_eq_ok _ _ _ _ four).mpr rfl
    have valueRead : readBytes (t.value ++ rest) t.value.length = .ok (t.value, rest) :=
      (readBytes_eq_ok _ _ _ _ rfl).mpr rfl
    have decoded : TLV.unmarshalBinary
        (t.type :: (putBigEndian tlvLengthFieldLength t.value.length ++ t.value)) = .ok t := by
      rw [← List.cons_append, TLV.unmarshalBinary_framed _ _ _ four, spelled,
        Nat.mod_eq_of_lt fits]
      simp
    simp [unmarshalFirstTLV, typeRead, lengthRead, four, spelled, valueRead, decoded, bind,
      Except.bind, pure, Except.pure]

theorem unmarshalFirstTLV_marshalBinary (t : TLV) (rest : Bytes) (fits : t.value.length < 2 ^ 32) :
    unmarshalFirstTLV (t.marshalBinary ++ rest) = .ok (t, rest) :=
  (unmarshalFirstTLV_eq_ok _ rest t).mpr ⟨fits, rfl⟩

/-- **An encoding that does not delimit itself.** `MarshalBinary` writes the length of a value
of `2 ^ 32` bytes or more modulo `2 ^ 32`, without an error; the reader then returns a TLV with
that many bytes of the value and leaves the rest of the value unread. -/
theorem unmarshalFirstTLV_marshalBinary_long (t : TLV) (rest : Bytes) (long : 2 ^ 32 ≤ t.value.length) :
    unmarshalFirstTLV (t.marshalBinary ++ rest) =
        .ok (⟨t.type, t.value.take (t.value.length % 2 ^ 32)⟩,
          t.value.drop (t.value.length % 2 ^ 32) ++ rest) ∧
      unmarshalFirstTLV (t.marshalBinary ++ rest) ≠ .ok (t, rest) := by
  have fits : t.value.length % 2 ^ 32 < 2 ^ 32 := Nat.mod_lt _ (Nat.two_pow_pos 32)
  have read : unmarshalFirstTLV (t.marshalBinary ++ rest) =
      .ok (⟨t.type, t.value.take (t.value.length % 2 ^ 32)⟩,
        t.value.drop (t.value.length % 2 ^ 32) ++ rest) := by
    rw [unmarshalFirstTLV_eq_ok]
    have taken : (t.value.take (t.value.length % 2 ^ 32)).length = t.value.length % 2 ^ 32 := by
      rw [List.length_take]; omega
    refine ⟨by rw [taken]; exact fits, ?_⟩
    rw [TLV.marshalBinary, TLV.marshalBinary, taken, tlvLengthFieldLength,
      ← putBigEndian_mod 4 t.value.length]
    simp only [List.cons_append, List.append_assoc, Nat.reducePow]
    rw [← List.append_assoc (t.value.take _), List.take_append_drop]
  refine ⟨read, fun same => ?_⟩
  rw [read] at same
  have := congrArg (fun r : TLV => r.value.length) (Prod.mk.inj (Except.ok.inj same)).1
  simp only [List.length_take] at this
  omega

/-- A value of `2 ^ 32` zero bytes, `make([]byte, 1 << 32)`. -/
def zerosTLV : TLV := ⟨0, zeros (2 ^ 32)⟩

theorem unmarshalFirstTLV_marshalBinary_zerosTLV :
    2 ^ 32 ≤ zerosTLV.value.length ∧
      (unmarshalFirstTLV (zerosTLV.marshalBinary ++ []) =
          .ok (⟨zerosTLV.type, zerosTLV.value.take (zerosTLV.value.length % 2 ^ 32)⟩,
            zerosTLV.value.drop (zerosTLV.value.length % 2 ^ 32) ++ []) ∧
        unmarshalFirstTLV (zerosTLV.marshalBinary ++ []) ≠ .ok (zerosTLV, [])) :=
  ⟨Nat.le_of_eq (length_zeros _).symm,
    unmarshalFirstTLV_marshalBinary_long zerosTLV [] (Nat.le_of_eq (length_zeros _).symm)⟩

theorem unmarshalFirstTLV_consumes {buf rest : Bytes} {t : TLV}
    (read : unmarshalFirstTLV buf = .ok (t, rest)) : rest.length + 5 ≤ buf.length := by
  obtain ⟨-, rfl⟩ := (unmarshalFirstTLV_eq_ok buf rest t).mp read
  simp; omega

theorem unmarshalFirstTLV_not_panicked (buf : Bytes) : panicked (unmarshalFirstTLV buf) = false := by
  have reads : ∀ buf n, panicked (readBytes buf n) = false := by
    intro buf n; unfold readBytes; split_ifs <;> rfl
  unfold unmarshalFirstTLV
  refine panicked_bind _ _ (by cases buf <;> rfl) ?_
  rintro ⟨typeByte, afterType⟩ -
  refine panicked_bind _ _ (reads _ _) ?_
  rintro ⟨lengthBytes, afterLength⟩ -
  dsimp only
  split
  · rfl
  refine panicked_bind _ _ (reads _ _) ?_
  rintro ⟨valueBytes, afterValue⟩ -
  dsimp only
  split
  · rfl
  rename_i four _
  refine panicked_bind _ _ ?_ (fun _ _ => rfl)
  rw [TLV.unmarshalBinary_framed _ _ _ (by simpa [tlvLengthFieldLength] using four)]
  split <;> rfl

end MeasuredBoot
