import MeasuredBoot.Register
import MeasuredBoot.Cel.Tlv

/-!
The Canonical Event Log: records, appending a measured event, the TLV encoding of records and
logs, decoding, and replay against a bank of registers. The executable model of `cel`; the
theorems about it are in the modules that import this one.
-/

namespace MeasuredBoot

def recnumTypeValue : UInt8 := 0

/-- `PCRType`, the `MRType` of a log measured into TPM PCRs. -/
def pcrType : UInt8 := 1

/-- `CCMRType`, the `MRType` of a log measured into confidential-computing registers. -/
def ccmrType : UInt8 := 108

def digestsTypeValue : UInt8 := 3

def recnumValueLength : Nat := 8

def regIndexValueLength : Nat := 1

/-- `cel.Record`. -/
structure Record where
  recNum : UInt64
  index : UInt8
  indexType : UInt8
  digests : GoMap Hash Bytes
  content : TLV
  deriving DecidableEq, Repr

/-- `cel.Content`: an event's content, which digests itself and gives its TLV. -/
structure Content where
  generateDigest : Hash → Except GoError Bytes
  getTLV : Except GoError TLV

/-- `cel.eventLog`, the implementation of the `CEL` interface. -/
structure EventLog where
  recs : List Record
  type : UInt8
  deriving DecidableEq, Repr

/-- `NewPCR`. -/
def newPCR : EventLog := { recs := [], type := pcrType }

/-- `NewConfComputeMR`. -/
def newConfComputeMR : EventLog := { recs := [], type := ccmrType }

/-- `cel.MRExtender`, over the state `σ` of the registers it extends: the state it leaves,
and its error. -/
abbrev MRExtender (σ : Type) := Hash → Int → Bytes → σ → σ × Option GoError

/-- `supportedMRType`. -/
def supportedMRType (mrType : UInt8) : Option GoError :=
  if mrType ≠ pcrType ∧ mrType ≠ ccmrType then
    some (.failed s!"received unknown type of measurement register: {mrType}")
  else none

/-- The loop of `generateDigestMap`, from the map built so far. -/
def generateDigestMapFrom (event : Content) (digestsMap : GoMap Hash Bytes) :
    List Hash → Except GoError (GoMap Hash Bytes)
  | [] => .ok digestsMap
  | hashAlgo :: rest =>
      match event.generateDigest hashAlgo with
      | .error err => .error err
      | .ok digest => generateDigestMapFrom event (digestsMap.insert hashAlgo digest) rest

/-- `generateDigestMap`. -/
def generateDigestMap (hashAlgos : List Hash) (event : Content) : Except GoError (GoMap Hash Bytes) :=
  generateDigestMapFrom event [] hashAlgos

/-- The extension loop of `AppendEvent`, over the digest map's entries in the order it visits
them; the first failure stops it. -/
def extendDigests {σ : Type} (extender : MRExtender σ) (mrIndex : Int) :
    GoMap Hash Bytes → σ → σ × Option GoError
  | [], rot => (rot, none)
  | (bank, dgst) :: rest, rot =>
      match extender bank mrIndex dgst rot with
      | (rot, some err) =>
          let reason := err.text
          (rot, some (.failed s!"failed to extend event to MR{mrIndex} on bank {bank.name}: {reason}"))
      | (rot, none) => extendDigests extender mrIndex rest rot

/-- `eventLog.AppendEvent`, whose loop visits the digest map in `order`: the log and the
extender's state it leaves, and its error. -/
def EventLog.appendEvent {σ : Type} (c : EventLog) (event : Content) (bankAlgos : List Hash)
    (mrIndex : Int) (extender : MRExtender σ) (order : RangeOrder Hash Bytes) (rot : σ) :
    EventLog × σ × Option GoError :=
  if bankAlgos = [] ∨ mrIndex < 0 then
    (c, rot, some (.failed
      s!"failed to append event with banks {formatSlice (bankAlgos.map Hash.name)}, measurement register index {mrIndex}"))
  else
    match supportedMRType c.type with
    | some err => (c, rot, some err)
    | none =>
        match generateDigestMap bankAlgos event with
        | .error err => (c, rot, some err)
        | .ok digestMap =>
            match extendDigests extender mrIndex (order.visit digestMap) rot with
            | (rot, some err) => (c, rot, some err)
            | (rot, none) =>
                match event.getTLV with
                | .error err => (c, rot, some err)
                | .ok eventTlv =>
                    let celrPCR : Record :=
                      { recNum := UInt64.ofNat c.recs.length, index := UInt8.ofNat mrIndex.toNat,
                        digests := digestMap, content := eventTlv, indexType := c.type }
                    ({ c with recs := c.recs ++ [celrPCR] }, rot, none)

/-- The test extender `fakeRotExtender`: it extends the fake root of trust. -/
def fakeRotExtender (H : Hasher) : MRExtender FakeROT := fun bank mrIdx digest rot =>
  match rot.extendMR H { index := mrIdx, digest, digestAlg := bank } with
  | .ok extended => (extended, none)
  | .error err => (rot, some err)

/-! ### Record fields -/

/-- `createRecNumField`. -/
def createRecNumField (recNum : UInt64) : TLV :=
  ⟨recnumTypeValue, putBigEndian recnumValueLength recNum.toNat⟩

/-- `binary.BigEndian.Uint64`, which panics on fewer than eight bytes. -/
def bigEndianUint64 (b : Bytes) : Except GoError UInt64 :=
  if b.length < 8 then .error (.panic "index out of range")
  else .ok (UInt64.ofNat (bigEndianValue (b.take 8)))

/-- `unmarshalRecNum`. -/
def unmarshalRecNum (tlv : TLV) : Except GoError UInt64 :=
  if tlv.type ≠ recnumTypeValue then
    .error (.failed s!"type of the TLV [{tlv.type}] indicates it is not a recnum field [0]")
  else if tlv.value.length % 2 ^ 32 ≠ recnumValueLength then
    .error (.failed s!"length of the value of the TLV [{tlv.value.length}] doesn't match the defined length [8] of value for recnum")
  else bigEndianUint64 tlv.value

/-- `createIndexField`. -/
def createIndexField (indexType indexNum : UInt8) : TLV := ⟨indexType, [indexNum]⟩

/-- `unmarshalIndex`: the index type and the register index. -/
def unmarshalIndex (tlv : TLV) : Except GoError (UInt8 × UInt8) :=
  if tlv.type ≠ pcrType ∧ tlv.type ≠ ccmrType then
    .error (.failed s!"type of the TLV [{tlv.type}] indicates it is not a PCR [1] or a CCMR [108] field ")
  else if tlv.value.length % 2 ^ 32 ≠ regIndexValueLength then
    .error (.failed s!"length of the value of the TLV [{tlv.value.length}] doesn't match the defined length [1] of value for a register index field")
  else do
    let pcrNum ← byteAt tlv.value 0
    pure (tlv.type, pcrNum)

/-- The loop of `createDigestField`, over the digest map's entries in the order it visits them:
one TLV per digest, typed by its TPM algorithm identifier. -/
def writeDigests : GoMap Hash Bytes → Except GoError Bytes
  | [] => .ok []
  | (hashAlgo, hash) :: rest =>
      if hash.length ≠ hashAlgo.size then
        .error (.failed s!"digest length [{hash.length}] doesn't match the expected length [{hashAlgo.size}] for the hash algorithm")
      else do
        let tpmHashAlg ← hashAlgo.toAlgorithm
        let written ← writeDigests rest
        pure ((TLV.mk tpmHashAlg.toNat.toUInt8 hash).marshalBinary ++ written)

/-- `createDigestField`, whose loop visits the map in `order`. -/
def createDigestField (digestMap : GoMap Hash Bytes) (order : RangeOrder Hash Bytes) :
    Except GoError TLV := do
  let value ← writeDigests (order.visit digestMap)
  pure ⟨digestsTypeValue, value⟩

/-- The loop of `unmarshalDigests` over the digests TLV's value. -/
def unmarshalDigestsFrom (buf : Bytes) (digestsMap : GoMap Hash Bytes) :
    Except GoError (GoMap Hash Bytes) :=
  if buf.length > 0 then
    match read : unmarshalFirstTLV buf with
    | .error .eof => .error (.failed "buffer ends unexpectedly")
    | .error err => .error err
    | .ok (digestTLV, rest) =>
        match algorithmHash digestTLV.type.toNat.toUInt16 with
        | .error err => .error err
        | .ok hashAlg => unmarshalDigestsFrom rest (digestsMap.insert hashAlg digestTLV.value)
  else .ok digestsMap
termination_by buf.length
decreasing_by have := unmarshalFirstTLV_consumes read; omega

/-- `unmarshalDigests`. -/
def unmarshalDigests (tlv : TLV) : Except GoError (GoMap Hash Bytes) :=
  if tlv.type ≠ digestsTypeValue then
    .error (.failed "type of the TLV indicates it doesn't contain digests")
  else unmarshalDigestsFrom tlv.value []

/-! ### Encoding and decoding -/

/-- `Record.EncodeCELR`, its digest loop visiting the map in `order`: the four fields, or
nothing when one fails to encode. -/
def Record.encodeCELR (r : Record) (order : RangeOrder Hash Bytes) : Except GoError Bytes := do
  let recnumField := (createRecNumField r.recNum).marshalBinary
  let indexField := (createIndexField r.indexType r.index).marshalBinary
  let digests ← createDigestField r.digests order
  let digestsField := digests.marshalBinary
  let eventField := r.content.marshalBinary
  pure (recnumField ++ indexField ++ digestsField ++ eventField)

/-- The loop of `EncodeCEL`, where the digest loop of record `i` visits its map in `orders i`:
the buffer's bytes, and the first error. -/
def encodeRecords (orders : Nat → RangeOrder Hash Bytes) : List Record → Bytes → Bytes × Option GoError
  | [], buf => (buf, none)
  | record :: rest, buf =>
      match record.encodeCELR (orders 0) with
      | .error err => (buf, some err)
      | .ok bytes => encodeRecords (fun i => orders (i + 1)) rest (buf ++ bytes)

/-- `eventLog.EncodeCEL`, writing into a buffer that holds `buf`. -/
def EventLog.encodeCEL (c : EventLog) (orders : Nat → RangeOrder Hash Bytes) (buf : Bytes) :
    Bytes × Option GoError :=
  encodeRecords orders c.recs buf

/-- `decodeToCELR`: the next record, and the bytes it leaves unread. -/
def decodeToCELR (buf : Bytes) : Except GoError (Record × Bytes) := do
  let (recnum, buf) ← unmarshalFirstTLV buf
  let recNum ← unmarshalRecNum recnum
  let (regIndex, buf) ← unmarshalFirstTLV buf
  let (indexType, index) ← unmarshalIndex regIndex
  let (digests, buf) ← unmarshalFirstTLV buf
  let digestsMap ← unmarshalDigests digests
  let (content, buf) ← unmarshalFirstTLV buf
  pure ({ recNum, index, indexType, digests := digestsMap, content }, buf)

theorem decodeToCELR_consumes {buf rest : Bytes} {r : Record}
    (decoded : decodeToCELR buf = .ok (r, rest)) : rest.length + 20 ≤ buf.length := by
  simp only [decodeToCELR, bind_eq_ok] at decoded
  obtain ⟨⟨_, afterRecNum⟩, first, _, -, ⟨_, afterIndex⟩, second, _, -, ⟨_, afterDigests⟩, third,
    _, -, ⟨_, afterContent⟩, fourth, done⟩ := decoded
  simp only [pure, Except.pure, Except.ok.injEq, Prod.mk.injEq] at done
  obtain ⟨-, rfl⟩ := done
  have := unmarshalFirstTLV_consumes first
  have := unmarshalFirstTLV_consumes second
  have := unmarshalFirstTLV_consumes third
  have := unmarshalFirstTLV_consumes fourth
  simp only at *
  omega

/-- The record loop of `DecodeToCEL`. -/
def decodeRecords (buf : Bytes) (recs : List Record) : Except GoError (List Record) :=
  if buf.length > 0 then
    match decoded : decodeToCELR buf with
    | .error .eof => .error (.failed "buffer ends unexpectedly")
    | .error err => .error err
    | .ok (celr, rest) => decodeRecords rest (recs ++ [celr])
  else .ok recs
termination_by buf.length
decreasing_by have := decodeToCELR_consumes decoded; omega

/-- The MR-type loop of `DecodeToCEL`: every record's type is supported and the first one's. -/
def checkMRTypes (zeroMRType : UInt8) : List Record → Option GoError
  | [] => none
  | rec :: rest =>
      match supportedMRType rec.indexType with
      | some err =>
          let reason := err.text
          some (.failed s!"bad record {rec.recNum}: {reason}")
      | none =>
          if rec.indexType ≠ zeroMRType then
            some (.failed s!"bad record {rec.recNum}: found differing MR types in the CEL: got {rec.indexType}, expected {zeroMRType}")
          else checkMRTypes zeroMRType rest

/-- `DecodeToCEL`. The MR types are checked, and the log's type set, only when it holds more
than one record; otherwise the type keeps its zero value. -/
def decodeToCEL (buf : Bytes) : Except GoError EventLog := do
  let recs ← decodeRecords buf []
  match recs with
  | first :: _ :: _ =>
      match checkMRTypes first.indexType recs with
      | some err => .error err
      | none => pure { recs, type := first.indexType }
  | _ => pure { recs, type := 0 }

/-! ### Replay -/

/-- The extend loop of `eventLog.Replay`: an accumulator per register index, zeroed at the
index's first record. -/
def replayRecords (H : Hasher) (cryptoHash : Hash) :
    GoMap UInt8 Bytes → List Record → Except GoError (GoMap UInt8 Bytes)
  | replayed, [] => .ok replayed
  | replayed, record :: rest =>
      let replayed := if (replayed.get? record.index).isSome then replayed
        else replayed.insert record.index (zeros cryptoHash.size)
      match record.digests.get? cryptoHash with
      | none => .error (.failed s!"the CEL record did not contain a {cryptoHash.name} digest")
      | some digest =>
          replayRecords H cryptoHash (replayed.insert record.index
            (H.sum cryptoHash ((replayed.get? record.index).getD [] ++ digest))) rest

/-- The comparison loop of `eventLog.Replay`: the registers whose digests differ from the
bank's. A register missing from the bank stops it with an error. -/
def compareReplayed (registers : GoMap Int Bytes) :
    GoMap UInt8 Bytes → Except GoError (List UInt8)
  | [] => .ok []
  | (replayReg, replayDigest) :: rest =>
      match registers.get? replayReg.toNat with
      | none => .error (.failed s!"the CEL contains record(s) for register {replayReg} without a matching register in the given bank to verify")
      | some bankDigest => do
          let failed ← compareReplayed registers rest
          pure (if bankDigest = replayDigest then failed else replayReg :: failed)

/-- The register map of `eventLog.Replay`: a later register of the bank overwrites an earlier
one with the same index. -/
def bankRegisters (mrs : List MR) : GoMap Int Bytes :=
  mrs.foldl (fun registers r => registers.insert r.idx r.dgst) []

/-- `eventLog.Replay`. -/
def EventLog.replay (H : Hasher) (c : EventLog) (regs : MRBank) : Option GoError :=
  match regs.cryptoHash with
  | .error err => some err
  | .ok cryptoHash =>
      match replayRecords H cryptoHash [] c.recs with
      | .error err => some err
      | .ok replayed =>
          match compareReplayed (bankRegisters regs.mrs) replayed with
          | .error err => some err
          | .ok [] => none
          | .ok failedReplayRegs =>
              some (.failed s!"CEL replay failed for these registers in bank {cryptoHash.name}: {formatSlice (failedReplayRegs.map toString)}")

/-- `VerifyDigests`: every digest of the map is the content's own digest. -/
def verifyDigests (c : Content) : GoMap Hash Bytes → Option GoError
  | [] => none
  | (hash, digest) :: rest =>
      match c.generateDigest hash with
      | .error err => some err
      | .ok generatedDigest =>
          if generatedDigest ≠ digest then
            some (.failed s!"CEL record content digest verification failed for {hash.name}")
          else verifyDigests c rest

/-! ### The fake content of the tests -/

def fakeEventType : UInt8 := 222

/-- `cel.FakeTlv`: a nested event of type `eventType`. -/
structure FakeTlv where
  eventType : UInt8
  eventContent : Bytes

/-- `FakeTlv.TLV`: the nested event's encoding, under the fake event type. It never fails. -/
def FakeTlv.tlv (f : FakeTlv) : TLV :=
  ⟨fakeEventType, (TLV.mk f.eventType f.eventContent).marshalBinary⟩

/-- `FakeTlv` as `Content`: the digest of the whole TLV's encoding. -/
def FakeTlv.toContent (H : Hasher) (f : FakeTlv) : Content :=
  { generateDigest := fun hashAlgo => .ok (H.sum hashAlgo f.tlv.marshalBinary)
    getTLV := .ok f.tlv }

/-- `TLV.IsFakeTLV`. -/
def TLV.isFakeTLV (t : TLV) : Bool := t.type == fakeEventType

/-- `TLV.ParseToFakeTlv`. -/
def TLV.parseToFakeTlv (t : TLV) : Except GoError FakeTlv :=
  if !t.isFakeTLV then .error (.failed s!"TLV type {t.type} is not a Fake event") else do
  let nestedEvent ← TLV.unmarshalBinary t.value
  pure ⟨nestedEvent.type, nestedEvent.value⟩

/-- **A short nested event faults.** On a value of fewer than five bytes `UnmarshalBinary` panics
instead of returning an error, and so does `ParseToFakeTlv` on a fake-typed TLV with that
value. -/
theorem parseToFakeTlv_short_value (value : Bytes) (short : value.length < 5) :
    TLV.unmarshalBinary value = .error (.panic "slice bounds out of range") ∧
      TLV.parseToFakeTlv ⟨fakeEventType, value⟩ = .error (.panic "slice bounds out of range") := by
  have panics := TLV.unmarshalBinary_short value short
  refine ⟨panics, ?_⟩
  rw [TLV.parseToFakeTlv, if_neg (by simp [TLV.isFakeTLV]), panics]
  rfl

theorem parseToFakeTlv_empty_value :
    ([] : Bytes).length < 5 ∧
      TLV.unmarshalBinary [] = .error (.panic "slice bounds out of range") ∧
      TLV.parseToFakeTlv ⟨fakeEventType, []⟩ = .error (.panic "slice bounds out of range") :=
  ⟨by decide, parseToFakeTlv_short_value [] (by decide)⟩

end MeasuredBoot
