import MeasuredBoot.Cel.Append

/-!
The CEL encoding read back. Each field reader inverts its writer, and the two decoding loops
are unfolded one pass at a time (`unmarshalDigestsFrom_marshalBinary`, `decodeRecords_append`),
so that a log's bytes are read record by record. Logs whose records the encoder accepts decode
to the same records; the decoder checks register types but neither record numbers nor digest
sizes; and no input makes it panic.
-/

namespace MeasuredBoot

variable {σ : Type}

/-! ### Fields -/

theorem unmarshalRecNum_createRecNumField (recNum : UInt64) :
    unmarshalRecNum (createRecNumField recNum) = .ok recNum := by
  have eight : (putBigEndian recnumValueLength recNum.toNat).length = 8 := length_putBigEndian _ _
  have value : bigEndianValue (putBigEndian recnumValueLength recNum.toNat) = recNum.toNat := by
    rw [bigEndianValue_putBigEndian]; exact Nat.mod_eq_of_lt (UInt64.toNat_lt recNum)
  simp only [unmarshalRecNum, createRecNumField, bigEndianUint64, eight]
  rw [List.take_of_length_le (by omega), value]
  exact congrArg Except.ok (UInt64.ext (UInt64.toNat_ofNat_of_lt recNum.val.isLt))

theorem unmarshalIndex_createIndexField (indexType indexNum : UInt8)
    (supported : supportedMRType indexType = none) :
    unmarshalIndex (createIndexField indexType indexNum) = .ok (indexType, indexNum) := by
  have typed : indexType = pcrType ∨ indexType = ccmrType := by
    unfold supportedMRType at supported
    split at supported
    · simp at supported
    · tauto
  rcases typed with rfl | rfl <;> rfl

/-! ### Digests -/

theorem unmarshalDigestsFrom_nil (digestsMap : GoMap Hash Bytes) :
    unmarshalDigestsFrom [] digestsMap = .ok digestsMap := by
  rw [unmarshalDigestsFrom]; rfl

theorem unmarshalDigestsFrom_marshalBinary (t : TLV) (rest : Bytes) (digestsMap : GoMap Hash Bytes)
    (fits : t.value.length < 2 ^ 32) :
    unmarshalDigestsFrom (t.marshalBinary ++ rest) digestsMap =
      (algorithmHash t.type.toNat.toUInt16).bind fun hashAlg =>
        unmarshalDigestsFrom rest (digestsMap.insert hashAlg t.value) := by
  have read := (unmarshalFirstTLV_eq_ok (t.marshalBinary ++ rest) rest t).mpr ⟨fits, rfl⟩
  rw [unmarshalDigestsFrom, if_pos (by simp)]
  split
  · simp_all
  · simp_all
  · rename_i digestTLV rest' found
    rw [read] at found
    simp only [Except.ok.injEq, Prod.mk.injEq] at found
    obtain ⟨rfl, rfl⟩ := found
    cases algorithmHash t.type.toNat.toUInt16 <;> rfl

theorem writeDigests_eq_ok (m : GoMap Hash Bytes) (written : Bytes)
    (wrote : writeDigests m = .ok written) :
    written.length ≤ 69 * m.length ∧ ∀ start, unmarshalDigestsFrom written start =
      .ok (m.foldl (fun acc entry => acc.insert entry.1 entry.2) start) := by
  induction m generalizing written with
  | nil =>
      simp only [writeDigests, Except.ok.injEq] at wrote
      subst wrote
      exact ⟨by simp, fun start => unmarshalDigestsFrom_nil start⟩
  | cons entry rest ih =>
      obtain ⟨hashAlgo, hash⟩ := entry
      simp only [writeDigests] at wrote
      by_cases sized : hash.length = hashAlgo.size
      swap
      · simp [sized] at wrote
      simp only [sized, ne_eq, not_true_eq_false, if_false, bind_eq_ok] at wrote
      obtain ⟨alg, named, restBytes, restWrote, done⟩ := wrote
      simp only [pure, Except.pure, Except.ok.injEq] at done
      subst done
      obtain ⟨bound, reads⟩ := ih restBytes restWrote
      obtain ⟨-, algRead⟩ := algorithmHash_toAlgorithm hashAlgo alg named
      have small : hashAlgo.size ≤ 64 := by cases hashAlgo <;> decide
      refine ⟨by simp [sized]; omega, fun start => ?_⟩
      rw [unmarshalDigestsFrom_marshalBinary _ _ _ (by simp [sized]; omega)]
      simp [algRead, reads, Except.bind]

/-! ### Records -/

/-- A record that `EncodeCELR` writes and `decodeToCELR` reads back: its digest map is a map,
each digest has its algorithm's size and the algorithm a TPM identifier, its content fits a TLV
and its index type is a register type. -/
structure Record.Encodable (r : Record) : Prop where
  nodup : r.digests.keys.Nodup
  sized : ∀ h d, (h, d) ∈ r.digests → d.length = h.size
  named : ∀ h ∈ r.digests.keys, ∃ alg, h.toAlgorithm = .ok alg
  fits : r.content.value.length < 2 ^ 32
  supported : supportedMRType r.indexType = none

theorem writeDigests_ok (m : GoMap Hash Bytes) (sized : ∀ h d, (h, d) ∈ m → d.length = h.size)
    (named : ∀ h ∈ m.keys, ∃ alg, h.toAlgorithm = .ok alg) : ∃ written, writeDigests m = .ok written := by
  induction m with
  | nil => exact ⟨[], rfl⟩
  | cons entry rest ih =>
      obtain ⟨hashAlgo, hash⟩ := entry
      obtain ⟨written, wrote⟩ := ih (fun h d mem => sized h d (List.mem_cons_of_mem _ mem))
        (fun h mem => named h (List.mem_cons_of_mem _ mem))
      obtain ⟨alg, algOk⟩ := named hashAlgo (List.mem_cons_self _ _)
      have size := sized hashAlgo hash (List.mem_cons_self _ _)
      exact ⟨(TLV.mk alg.toNat.toUInt8 hash).marshalBinary ++ written,
        by simp [writeDigests, size, algOk, wrote, bind, Except.bind, pure, Except.pure]⟩

/-- Record `r` with its digest map listed in the order `order` visits it: what the decoder
reads back from `EncodeCELR`'s output. The same Go value as `r`. -/
def Record.ranged (r : Record) (order : RangeOrder Hash Bytes) : Record :=
  { r with digests := order.visit r.digests }

/-- The records of a log as the decoder reads them back from `EncodeCEL`'s output, the digest
loop of record `i` having visited its map in `orders i`. -/
def rangedRecs (orders : Nat → RangeOrder Hash Bytes) (recs : List Record) : List Record :=
  recs.mapIdx fun i r => r.ranged (orders i)

@[simp] theorem rangedRecs_nil (orders : Nat → RangeOrder Hash Bytes) : rangedRecs orders [] = [] :=
  rfl

@[simp] theorem rangedRecs_cons (orders : Nat → RangeOrder Hash Bytes) (r : Record)
    (rest : List Record) :
    rangedRecs orders (r :: rest) = r.ranged (orders 0) :: rangedRecs (fun i => orders (i + 1)) rest :=
  List.mapIdx_cons

@[simp] theorem length_rangedRecs (orders : Nat → RangeOrder Hash Bytes) (recs : List Record) :
    (rangedRecs orders recs).length = recs.length :=
  List.length_mapIdx

theorem map_rangedRecs {β : Type} (f : Record → β) (unordered : ∀ r order, f (r.ranged order) = f r)
    (orders : Nat → RangeOrder Hash Bytes) (recs : List Record) :
    (rangedRecs orders recs).map f = recs.map f := by
  induction recs generalizing orders with
  | nil => rfl
  | cons r rest ih => simp [unordered, ih]

theorem mem_rangedRecs {orders : Nat → RangeOrder Hash Bytes} {recs : List Record} {r' : Record}
    (mem : r' ∈ rangedRecs orders recs) : ∃ r ∈ recs, ∃ order, r' = r.ranged order := by
  obtain ⟨i, lt, rfl⟩ := List.mem_mapIdx.1 mem
  exact ⟨_, List.getElem_mem lt, orders i, rfl⟩

theorem length_le_four (m : GoMap Hash Bytes) (nodup : m.keys.Nodup)
    (named : ∀ h ∈ m.keys, ∃ alg, h.toAlgorithm = .ok alg) : m.length ≤ 4 := by
  have within : m.keys ⊆ [.sha1, .sha256, .sha384, .sha512] := fun h mem => by
    obtain ⟨alg, algOk⟩ := named h mem
    cases h <;> simp [Hash.toAlgorithm] at algOk ⊢
  simpa [GoMap.keys] using (List.subperm_of_subset nodup within).length_le

theorem decodeToCELR_marshalBinary (recnum regIndex digests content : TLV) (rest : Bytes)
    (recnumFits : recnum.value.length < 2 ^ 32) (indexFits : regIndex.value.length < 2 ^ 32)
    (digestsFit : digests.value.length < 2 ^ 32) (contentFits : content.value.length < 2 ^ 32) :
    decodeToCELR (recnum.marshalBinary ++ regIndex.marshalBinary ++ digests.marshalBinary ++
        content.marshalBinary ++ rest) = (do
      let recNum ← unmarshalRecNum recnum
      let (indexType, index) ← unmarshalIndex regIndex
      let digestsMap ← unmarshalDigests digests
      pure ({ recNum, index, indexType, digests := digestsMap, content }, rest)) := by
  simp only [decodeToCELR, List.append_assoc, unmarshalFirstTLV_marshalBinary _ _ recnumFits,
    unmarshalFirstTLV_marshalBinary _ _ indexFits, unmarshalFirstTLV_marshalBinary _ _ digestsFit,
    unmarshalFirstTLV_marshalBinary _ _ contentFits, bind, Except.bind]

theorem decodeToCELR_encodeCELR (r : Record) (encodable : r.Encodable) (order : RangeOrder Hash Bytes) :
    ∃ bytes, r.encodeCELR order = .ok bytes ∧
      ∀ rest, decodeToCELR (bytes ++ rest) = .ok (r.ranged order, rest) := by
  have nodup := order.nodup_keys_visit _ encodable.nodup
  obtain ⟨written, wrote⟩ := writeDigests_ok (order.visit r.digests)
    (fun h d mem => encodable.sized h d ((order.mem_visit _ _).1 mem))
    (fun h key => encodable.named h (((order.perm _).map Prod.fst).mem_iff.1 key))
  obtain ⟨bound, reads⟩ := writeDigests_eq_ok _ written wrote
  have four := length_le_four r.digests encodable.nodup encodable.named
  rw [← (order.perm r.digests).length_eq] at four
  refine ⟨(createRecNumField r.recNum).marshalBinary ++
    (createIndexField r.indexType r.index).marshalBinary ++
    (TLV.mk digestsTypeValue written).marshalBinary ++ r.content.marshalBinary,
    by simp [Record.encodeCELR, createDigestField, wrote, bind, Except.bind, pure, Except.pure],
    fun rest => ?_⟩
  rw [decodeToCELR_marshalBinary _ _ _ _ _ (by simp [createRecNumField, recnumValueLength])
    (by simp [createIndexField]) (by simp only; omega) encodable.fits,
    unmarshalRecNum_createRecNumField, unmarshalIndex_createIndexField _ _ encodable.supported]
  simp only [unmarshalDigests, digestsTypeValue, ne_eq, not_true_eq_false, if_false, reads,
    GoMap.foldl_insert_eq_append _ [] (by simpa using nodup), List.nil_append]
  rfl

theorem decodeRecords_nil (recs : List Record) : decodeRecords [] recs = .ok recs := by
  rw [decodeRecords]; rfl

theorem decodeRecords_step (buf rest : Bytes) (celr : Record) (recs : List Record)
    (decoded : decodeToCELR buf = .ok (celr, rest)) :
    decodeRecords buf recs = decodeRecords rest (recs ++ [celr]) := by
  have := decodeToCELR_consumes decoded
  rw [decodeRecords, if_pos (by omega)]
  split <;> simp_all

theorem encodeRecords_decodeRecords (recs : List Record) (encodable : ∀ r ∈ recs, r.Encodable)
    (orders : Nat → RangeOrder Hash Bytes) (buf : Bytes) :
    ∃ bytes, encodeRecords orders recs buf = (buf ++ bytes, none) ∧
      ∀ acc, decodeRecords bytes acc = .ok (acc ++ rangedRecs orders recs) := by
  induction recs generalizing orders buf with
  | nil => exact ⟨[], by simp [encodeRecords], fun acc => by simp [decodeRecords_nil]⟩
  | cons r rest ih =>
      obtain ⟨bytes, encoded, decoded⟩ :=
        decodeToCELR_encodeCELR r (encodable r (List.mem_cons_self _ _)) (orders 0)
      obtain ⟨restBytes, restEncoded, restDecoded⟩ :=
        ih (fun r' mem => encodable r' (List.mem_cons_of_mem _ mem)) (fun i => orders (i + 1))
          (buf ++ bytes)
      refine ⟨bytes ++ restBytes, ?_, fun acc => ?_⟩
      · simp [encodeRecords, encoded, restEncoded]
      · rw [decodeRecords_step _ _ _ acc (decoded restBytes), restDecoded]
        simp

/-! ### Logs -/

/-- A log whose records are all encodable and carry the log's type. -/
def EventLog.Encodable (c : EventLog) : Prop :=
  ∀ r ∈ c.recs, r.Encodable ∧ r.indexType = c.type

theorem checkMRTypes_eq_none (zeroMRType : UInt8) (recs : List Record)
    (typed : ∀ r ∈ recs, supportedMRType r.indexType = none ∧ r.indexType = zeroMRType) :
    checkMRTypes zeroMRType recs = none := by
  induction recs with
  | nil => rfl
  | cons r rest ih =>
      obtain ⟨supported, same⟩ := typed r (List.mem_cons_self _ _)
      subst same
      simp only [checkMRTypes, supported, ne_eq, not_true_eq_false, if_false]
      exact ih fun r' mem => typed r' (List.mem_cons_of_mem _ mem)

theorem decodeToCEL_encodeCEL (c : EventLog) (encodable : c.Encodable)
    (orders : Nat → RangeOrder Hash Bytes) :
    ∃ bytes, c.encodeCEL orders [] = (bytes, none) ∧
      decodeToCEL bytes =
        .ok { recs := rangedRecs orders c.recs, type := if 1 < c.recs.length then c.type else 0 } := by
  obtain ⟨bytes, encoded, decoded⟩ :=
    encodeRecords_decodeRecords c.recs (fun r mem => (encodable r mem).1) orders []
  refine ⟨bytes, by simpa using encoded, ?_⟩
  simp only [decodeToCEL, decoded [], List.nil_append, bind, Except.bind]
  have typed : ∀ r ∈ rangedRecs orders c.recs,
      supportedMRType r.indexType = none ∧ r.indexType = c.type := by
    intro r' mem
    obtain ⟨r, member, order, rfl⟩ := mem_rangedRecs mem
    exact ⟨(encodable r member).1.supported, (encodable r member).2⟩
  rcases recs : c.recs with _ | ⟨first, _ | ⟨second, rest⟩⟩ <;>
    simp only [recs, rangedRecs_cons, rangedRecs_nil] at typed ⊢
  · rfl
  · rfl
  · have sameType := (typed _ (List.mem_cons_self _ _)).2
    rw [checkMRTypes_eq_none _ _ fun r mem => ⟨(typed r mem).1, by rw [(typed r mem).2, sameType]⟩]
    simp [pure, Except.pure, sameType]

theorem supportedMRType_eq_none (mrType : UInt8) :
    supportedMRType mrType = none ↔ mrType = pcrType ∨ mrType = ccmrType := by
  unfold supportedMRType
  split
  · simp_all
  · simp only [iff_true]; tauto

/-- A log with a single record decodes with type 0, which no register type is. -/
theorem decodeToCEL_single_record_type (c : EventLog) (encodable : c.Encodable)
    (single : c.recs.length = 1) (orders : Nat → RangeOrder Hash Bytes) :
    ∃ bytes decoded, c.encodeCEL orders [] = (bytes, none) ∧ decodeToCEL bytes = .ok decoded ∧
      decoded.recs = rangedRecs orders c.recs ∧ decoded.type ≠ c.type := by
  obtain ⟨bytes, encoded, decoded⟩ := decodeToCEL_encodeCEL c encodable orders
  refine ⟨bytes, _, encoded, decoded, rfl, ?_⟩
  simp only [single, lt_self_iff_false, if_false]
  obtain ⟨r, one⟩ := List.length_eq_one.mp single
  obtain ⟨recordOk, sameType⟩ := encodable r (by simp [one])
  rw [← sameType]
  rcases (supportedMRType_eq_none _).mp recordOk.supported with typed | typed <;> rw [typed] <;> decide

/-- What a call of `AppendEvent` must bring for its record to be encodable: banks with a TPM
identifier, digests of their algorithm's size, and a TLV that fits. -/
structure AppendCall.Encodable (call : AppendCall) : Prop where
  named : ∀ h ∈ call.bankAlgos, ∃ alg, h.toAlgorithm = .ok alg
  sized : ∀ h d, call.event.generateDigest h = .ok d → d.length = h.size
  fits : ∀ t, call.event.getTLV = .ok t → t.value.length < 2 ^ 32

theorem fakeTlvCall_encodable (H : Hasher) (f : FakeTlv) (hashes : List Hash) (mrIndex : Int)
    (named : ∀ h ∈ hashes, ∃ alg, h.toAlgorithm = .ok alg) (fits : f.tlv.value.length < 2 ^ 32) :
    AppendCall.Encodable ⟨f.toContent H, hashes, mrIndex⟩ :=
  ⟨named, fun h d digest => by
    simp only [FakeTlv.toContent, Except.ok.injEq] at digest
    rw [← digest, Hasher.sum_length], fun t tlv => by
    simp only [FakeTlv.toContent, Except.ok.injEq] at tlv
    exact tlv ▸ fits⟩

theorem encodable_appendEvent (c c' : EventLog) (extender : MRExtender σ)
    (order : RangeOrder Hash Bytes) (rot rot' : σ) (call : AppendCall) (callOk : call.Encodable)
    (encodable : c.Encodable)
    (appended : c.appendEvent call.event call.bankAlgos call.mrIndex extender order rot =
      (c', rot', none)) :
    c'.Encodable := by
  obtain ⟨-, -, supported, digestMap, eventTlv, generated, -, tlv, rfl⟩ :=
    (appendEvent_eq_success _ _ _ _ _ _ _ rot rot').mp appended
  obtain ⟨nodup, present⟩ := generateDigestMap_eq_ok _ _ _ generated
  intro r mem
  rcases List.mem_append.mp mem with old | new
  · exact encodable r old
  · rw [List.mem_singleton.mp new]
    exact ⟨⟨nodup, fun h d entry => callOk.sized h d (generateDigestMap_mem _ _ _ generated h d entry).2,
      fun h key => callOk.named h ((present h).mp ((GoMap.get?_isSome_iff _ _).mpr key)),
      callOk.fits _ tlv, supported⟩, rfl⟩

theorem decodeToCEL_single_append :
    ∃ rot c rot', createFakeRot [.sha256] 1 = .ok rot ∧
      newPCR.appendEvent (FakeTlv.toContent Hasher.tagged ⟨1, [1]⟩) [.sha256] 0
        (fakeRotExtender Hasher.tagged) .inserted rot = (c, rot', none) ∧
      c.Encodable ∧ c.recs.length = 1 ∧
      ∃ bytes decoded, c.encodeCEL (fun _ => .inserted) [] = (bytes, none) ∧
        decodeToCEL bytes = .ok decoded ∧
        decoded.recs = rangedRecs (fun _ => .inserted) c.recs ∧ decoded.type ≠ c.type := by
  have callOk := fakeTlvCall_encodable Hasher.tagged ⟨1, [1]⟩ [.sha256] 0
    (by simp [Hash.toAlgorithm]) (by decide)
  let rot : FakeROT := ⟨[(.sha256, zeroBank .sha256 1)]⟩
  have encodable := encodable_appendEvent newPCR _ (fakeRotExtender Hasher.tagged) .inserted rot _ _
    callOk (by simp [EventLog.Encodable, newPCR]) rfl
  exact ⟨rot, _, _, rfl, rfl, encodable, rfl, decodeToCEL_single_record_type _ encodable rfl _⟩

theorem encodable_appendRun (extender : MRExtender σ) (calls : List AppendCall)
    (orders : Nat → RangeOrder Hash Bytes) (c c' : EventLog) (rot rot' : σ)
    (fresh : c = newPCR ∨ c = newConfComputeMR) (callsOk : ∀ call ∈ calls, call.Encodable)
    (ran : appendRun extender orders calls c rot = some (c', rot')) : c'.Encodable :=
  appendRun_invariant extender (fun c _ => c.Encodable) calls
    (fun call mem order c c' rot rot' =>
      encodable_appendEvent c c' extender order rot rot' call (callsOk call mem))
    orders c c' rot rot'
    (by rcases fresh with rfl | rfl <;> simp [EventLog.Encodable, newPCR, newConfComputeMR]) ran

/-- Logs built by successful appends of encodable calls round-trip, whatever orders the
appends' and the encoder's loops visit the digest maps in: the same records, each digest map
listed in the order the encoder visited it, and the log's type when there are at least two. -/
theorem decodeToCEL_encodeCEL_appendRun (extender : MRExtender σ) (calls : List AppendCall)
    (appendOrders : Nat → RangeOrder Hash Bytes) (c c' : EventLog) (rot rot' : σ)
    (fresh : c = newPCR ∨ c = newConfComputeMR) (callsOk : ∀ call ∈ calls, call.Encodable)
    (ran : appendRun extender appendOrders calls c rot = some (c', rot'))
    (orders : Nat → RangeOrder Hash Bytes) :
    ∃ bytes, c'.encodeCEL orders [] = (bytes, none) ∧
      decodeToCEL bytes =
        .ok { recs := rangedRecs orders c'.recs, type := if 1 < c'.recs.length then c'.type else 0 } :=
  decodeToCEL_encodeCEL c'
    (encodable_appendRun extender calls appendOrders c c' rot rot' fresh callsOk ran) orders

/-- One call of the tests' kind: a `FakeTlv` measured into the given banks and register. -/
def fakeAppend (H : Hasher) (measured : FakeTlv × List Hash × Int) : AppendCall :=
  ⟨measured.1.toContent H, measured.2.1, measured.2.2⟩

/-- The two events of the encoding test, with short contents, in the banks it measures. -/
def testEvents : List (FakeTlv × List Hash × Int) :=
  [(⟨0, [1]⟩, [.sha1, .sha256], 16), (⟨1, [2]⟩, [.sha1, .sha256], 23)]

/-! ### What the decoder checks -/

theorem unmarshalIndex_eq_ok (tlv : TLV) (indexType index : UInt8)
    (read : unmarshalIndex tlv = .ok (indexType, index)) : supportedMRType indexType = none := by
  unfold unmarshalIndex at read
  split at read
  · simp at read
  rename_i typed
  split at read
  · simp at read
  simp only [bind_eq_ok, pure, Except.pure, Except.ok.injEq, Prod.mk.injEq] at read
  obtain ⟨_, -, rfl, -⟩ := read
  exact (supportedMRType_eq_none _).mpr (by tauto)

theorem decodeToCELR_indexType (buf rest : Bytes) (r : Record)
    (decoded : decodeToCELR buf = .ok (r, rest)) : supportedMRType r.indexType = none := by
  simp only [decodeToCELR, bind_eq_ok] at decoded
  obtain ⟨_, _, _, _, _, _, ⟨indexType, index⟩, read, _, _, _, _, _, _, done⟩ := decoded
  simp only [pure, Except.pure, Except.ok.injEq, Prod.mk.injEq] at done
  rw [← done.1]
  exact unmarshalIndex_eq_ok _ _ _ read

theorem decodeRecords_indexType (buf : Bytes) (acc recs : List Record)
    (decoded : decodeRecords buf acc = .ok recs) (r : Record) (mem : r ∈ recs) :
    r ∈ acc ∨ supportedMRType r.indexType = none := by
  induction buf, acc using decodeRecords.induct with
  | case1 buf acc nonempty failed =>
      rw [decodeRecords, if_pos nonempty] at decoded; split at decoded <;> simp_all
  | case2 buf acc nonempty err notEof failed =>
      rw [decodeRecords, if_pos nonempty] at decoded; split at decoded <;> simp_all
  | case3 buf acc nonempty celr rest read ih =>
      rw [decodeRecords_step buf rest celr acc read] at decoded
      rcases ih decoded with old | checked
      · rcases List.mem_append.mp old with old | new
        · exact .inl old
        · exact .inr (List.mem_singleton.mp new ▸ decodeToCELR_indexType buf rest celr read)
      · exact .inr checked
  | case4 buf acc empty =>
      rw [decodeRecords, if_neg empty] at decoded
      simp only [Except.ok.injEq] at decoded
      exact .inl (decoded ▸ mem)

theorem checkMRTypes_eq_none_iff (zeroMRType : UInt8) (recs : List Record) :
    checkMRTypes zeroMRType recs = none ↔
      ∀ r ∈ recs, supportedMRType r.indexType = none ∧ r.indexType = zeroMRType := by
  refine ⟨fun checked => ?_, checkMRTypes_eq_none zeroMRType recs⟩
  induction recs with
  | nil => simp
  | cons r rest ih =>
      simp only [checkMRTypes] at checked
      cases supported : supportedMRType r.indexType with
      | some err => simp [supported] at checked
      | none =>
          simp only [supported, ne_eq, ite_not] at checked
          split at checked
          · rename_i same
            intro r' mem
            rcases List.mem_cons.mp mem with rfl | later
            · exact ⟨supported, same⟩
            · exact ih checked r' later
          · simp at checked

/-- **What a decoded log satisfies.** All its records share one index type, PCR or CCMR. -/
theorem decodeToCEL_indexType (b : Bytes) (d : EventLog) (decoded : decodeToCEL b = .ok d) :
    ∃ indexType, (indexType = pcrType ∨ indexType = ccmrType) ∧ ∀ r ∈ d.recs, r.indexType = indexType := by
  simp only [decodeToCEL, bind_eq_ok] at decoded
  obtain ⟨recs, loop, done⟩ := decoded
  have supported := fun r mem => (decodeRecords_indexType b [] recs loop r mem).resolve_left (by simp)
  split at done
  · rename_i first second rest
    cases checked : checkMRTypes first.indexType (first :: second :: rest) with
    | some err => simp [checked] at done
    | none =>
        simp only [checked, pure, Except.pure, Except.ok.injEq] at done
        subst done
        exact ⟨first.indexType, (supportedMRType_eq_none _).mp (supported first (by simp)),
          fun r mem => ((checkMRTypes_eq_none_iff _ _).mp checked r mem).2⟩
  · simp only [pure, Except.pure, Except.ok.injEq] at done
    subst done
    match recs, supported with
    | [], _ => exact ⟨pcrType, .inl rfl, by simp⟩
    | [r], supported =>
        exact ⟨r.indexType, (supportedMRType_eq_none _).mp (supported r (by simp)), by simp⟩
    | _ :: _ :: _, _ => rename_i noTwo; exact absurd rfl (noTwo _ _ _)

theorem decodeToCEL_indexType_testEvents :
    ∃ rot c' rot' bytes decoded, createFakeRot [.sha1, .sha256] 24 = .ok rot ∧
      appendRun (fakeRotExtender Hasher.tagged) (fun _ => .inserted)
        (testEvents.map (fakeAppend Hasher.tagged)) newPCR rot = some (c', rot') ∧
      c'.encodeCEL (fun _ => .inserted) [] = (bytes, none) ∧ decodeToCEL bytes = .ok decoded ∧
      decoded.recs.length = 2 ∧
      ∃ indexType, (indexType = pcrType ∨ indexType = ccmrType) ∧
        ∀ r ∈ decoded.recs, r.indexType = indexType := by
  obtain ⟨rot, created⟩ : ∃ rot, createFakeRot [.sha1, .sha256] 24 = .ok rot := ⟨_, rfl⟩
  obtain ⟨c', rot', ran, twoRecs⟩ : ∃ c' rot', appendRun (fakeRotExtender Hasher.tagged)
      (fun _ => .inserted) (testEvents.map (fakeAppend Hasher.tagged)) newPCR rot = some (c', rot') ∧
      c'.recs.length = 2 := by
    rw [createFakeRot] at created
    cases created
    exact ⟨_, _, rfl, rfl⟩
  have callsOk : ∀ call ∈ testEvents.map (fakeAppend Hasher.tagged), call.Encodable :=
    List.forall_mem_map.2 fun m mem => by
      simp only [testEvents, List.mem_cons, List.mem_singleton, List.not_mem_nil, or_false] at mem
      rcases mem with rfl | rfl <;>
        exact fakeTlvCall_encodable _ _ _ _ (by simp [Hash.toAlgorithm]) (by decide)
  obtain ⟨bytes, encoded, decoded⟩ := decodeToCEL_encodeCEL c'
    (encodable_appendRun _ _ _ _ c' _ rot' (.inl rfl) callsOk ran) (fun _ => .inserted)
  exact ⟨rot, c', rot', bytes, _, created, ran, encoded, decoded, by simpa using twoRecs,
    decodeToCEL_indexType _ _ decoded⟩

/-- One record numbered 1, with an empty SHA-256 digest. -/
def renumberedRecord : Record :=
  { recNum := 1, index := 0, indexType := pcrType, digests := [(.sha256, [])], content := ⟨0, []⟩ }

/-- The bytes of `renumberedRecord`, laid out field by field as the encoder would lay them out
had it not checked the digest size. -/
def renumberedRecordBytes : Bytes :=
  (createRecNumField 1).marshalBinary ++ (createIndexField pcrType 0).marshalBinary ++
    (TLV.mk digestsTypeValue ((TLV.mk 0x0B []).marshalBinary ++ [])).marshalBinary ++
    (TLV.mk 0 []).marshalBinary

theorem decodeToCEL_renumberedRecordBytes :
    decodeToCEL renumberedRecordBytes = .ok { recs := [renumberedRecord], type := 0 } := by
  have digests : unmarshalDigests ⟨digestsTypeValue, (TLV.mk 0x0B []).marshalBinary ++ []⟩ =
      .ok [(.sha256, [])] := by
    rw [unmarshalDigests, if_neg (by decide), unmarshalDigestsFrom_marshalBinary _ _ _ (by decide)]
    simp only [Except.bind]
    rw [show algorithmHash (TLV.mk 0x0B []).type.toNat.toUInt16 = .ok .sha256 from rfl]
    exact unmarshalDigestsFrom_nil _
  have read : decodeToCELR (renumberedRecordBytes ++ []) = .ok (renumberedRecord, []) := by
    rw [renumberedRecordBytes, decodeToCELR_marshalBinary _ _ _ _ _ (by decide) (by decide)
      (by decide) (by decide), unmarshalRecNum_createRecNumField,
      unmarshalIndex_createIndexField pcrType 0 rfl, digests]
    rfl
  rw [List.append_nil] at read
  simp only [decodeToCEL, decodeRecords_step _ _ _ [] read, decodeRecords_nil, List.nil_append,
    bind, Except.bind]
  rfl

/-- The decoder checks neither record numbers nor digest sizes. -/
theorem decodeToCEL_unchecked_fields :
    (¬ ∀ b d, decodeToCEL b = .ok d → ∀ (i : Nat) r, d.recs[i]? = some r → r.recNum.toNat = i) ∧
    (¬ ∀ b d, decodeToCEL b = .ok d →
      ∀ r ∈ d.recs, ∀ h dg, (h, dg) ∈ r.digests → dg.length = h.size) :=
  ⟨fun numbered => absurd (numbered _ _ decodeToCEL_renumberedRecordBytes 0 _ rfl) (by decide),
    fun sized => absurd (sized _ _ decodeToCEL_renumberedRecordBytes _ (List.mem_singleton_self _)
      .sha256 [] (List.mem_singleton_self _)) (by decide)⟩

theorem algorithmHash_named (alg : UInt16) (h : Hash) (read : algorithmHash alg = .ok h) :
    ∃ a, h.toAlgorithm = .ok a := by
  unfold algorithmHash at read
  split_ifs at read <;> cases read <;> exact ⟨_, rfl⟩

theorem unmarshalDigestsFrom_named (buf : Bytes) (start m : GoMap Hash Bytes)
    (read : unmarshalDigestsFrom buf start = .ok m)
    (named : ∀ h d, (h, d) ∈ start → ∃ a, h.toAlgorithm = .ok a) :
    ∀ h d, (h, d) ∈ m → ∃ a, h.toAlgorithm = .ok a := by
  induction buf, start using unmarshalDigestsFrom.induct with
  | case1 buf start nonempty failed =>
      rw [unmarshalDigestsFrom, if_pos nonempty] at read; split at read <;> simp_all
  | case2 buf start nonempty err notEof failed =>
      rw [unmarshalDigestsFrom, if_pos nonempty] at read; split at read <;> simp_all
  | case3 buf start nonempty digestTLV rest found err unnamed =>
      rw [unmarshalDigestsFrom, if_pos nonempty] at read; split at read <;> simp_all
  | case4 buf start nonempty digestTLV rest found hashAlg hashed ih =>
      rw [unmarshalDigestsFrom, if_pos nonempty] at read
      split at read
      · simp_all
      · simp_all
      · rename_i digestTLV' rest' found'
        rw [found] at found'
        obtain ⟨rfl, rfl⟩ := Prod.mk.inj (Except.ok.inj found')
        rw [hashed] at read
        refine ih read fun h d mem => ?_
        rcases GoMap.mem_insert _ _ _ _ _ mem with old | ⟨rfl, -⟩
        · exact named h d old
        · exact algorithmHash_named _ _ hashed
  | case5 buf start empty =>
      rw [unmarshalDigestsFrom, if_neg empty] at read
      cases read
      exact named

theorem decodeToCELR_named (buf rest : Bytes) (r : Record) (decoded : decodeToCELR buf = .ok (r, rest)) :
    ∀ h d, (h, d) ∈ r.digests → ∃ a, h.toAlgorithm = .ok a := by
  simp only [decodeToCELR, bind_eq_ok] at decoded
  obtain ⟨_, _, _, _, _, _, _, _, _, _, digestsMap, read, _, _, done⟩ := decoded
  simp only [pure, Except.pure, Except.ok.injEq, Prod.mk.injEq] at done
  rw [← done.1]
  unfold unmarshalDigests at read
  split at read
  · cases read
  · exact unmarshalDigestsFrom_named _ _ _ read (by simp)

theorem decodeRecords_named (buf : Bytes) (acc recs : List Record)
    (decoded : decodeRecords buf acc = .ok recs) (r : Record) (mem : r ∈ recs) :
    r ∈ acc ∨ ∀ h d, (h, d) ∈ r.digests → ∃ a, h.toAlgorithm = .ok a := by
  induction buf, acc using decodeRecords.induct with
  | case1 buf acc nonempty failed =>
      rw [decodeRecords, if_pos nonempty] at decoded; split at decoded <;> simp_all
  | case2 buf acc nonempty err notEof failed =>
      rw [decodeRecords, if_pos nonempty] at decoded; split at decoded <;> simp_all
  | case3 buf acc nonempty celr rest read ih =>
      rw [decodeRecords_step buf rest celr acc read] at decoded
      rcases ih decoded with old | named
      · rcases List.mem_append.mp old with old | new
        · exact .inl old
        · exact .inr (List.mem_singleton.mp new ▸ decodeToCELR_named buf rest celr read)
      · exact .inr named
  | case4 buf acc empty =>
      rw [decodeRecords, if_neg empty] at decoded
      simp only [Except.ok.injEq] at decoded
      exact .inl (decoded ▸ mem)

theorem writeDigests_isOk (m : GoMap Hash Bytes) :
    (∃ written, writeDigests m = .ok written) ↔
      ∀ h d, (h, d) ∈ m → d.length = h.size ∧ ∃ a, h.toAlgorithm = .ok a := by
  constructor
  · rintro ⟨written, wrote⟩
    induction m generalizing written with
    | nil => simp
    | cons entry rest ih =>
        obtain ⟨hashAlgo, hash⟩ := entry
        simp only [writeDigests] at wrote
        obtain ⟨size, wrote⟩ := guard_eq_ok wrote
        obtain ⟨alg, named, wrote⟩ := (bind_eq_ok _ _ _).1 wrote
        obtain ⟨restWritten, restWrote, -⟩ := (bind_eq_ok _ _ _).1 wrote
        rintro h d (⟨⟩ | ⟨_, mem⟩)
        · exact ⟨not_not.1 size, alg, named⟩
        · exact ih restWritten restWrote h d mem
  · intro sized
    refine writeDigests_ok m (fun h d mem => (sized h d mem).1) fun h key => ?_
    obtain ⟨⟨h', d⟩, mem, rfl⟩ := List.mem_map.1 key
    exact (sized h' d mem).2

theorem encodeCELR_isOk (r : Record) (order : RangeOrder Hash Bytes) :
    (∃ bytes, r.encodeCELR order = .ok bytes) ↔
      ∀ h d, (h, d) ∈ r.digests → d.length = h.size ∧ ∃ a, h.toAlgorithm = .ok a := by
  have written : (∃ bytes, r.encodeCELR order = .ok bytes) ↔
      ∃ written, writeDigests (order.visit r.digests) = .ok written := by
    simp only [Record.encodeCELR, createDigestField]
    cases writeDigests (order.visit r.digests) <;> simp [bind, Except.bind, pure, Except.pure]
  simp only [written, writeDigests_isOk, RangeOrder.mem_visit]

theorem encodeRecords_isOk (orders : Nat → RangeOrder Hash Bytes) (recs : List Record) (buf : Bytes) :
    (encodeRecords orders recs buf).2 = none ↔
      ∀ r ∈ recs, ∀ h d, (h, d) ∈ r.digests → d.length = h.size ∧ ∃ a, h.toAlgorithm = .ok a := by
  induction recs generalizing orders buf with
  | nil => simp [encodeRecords]
  | cons r rest ih =>
      simp only [encodeRecords, List.mem_cons, forall_eq_or_imp]
      cases encoded : r.encodeCELR (orders 0) with
      | error err =>
          have refused := (encodeCELR_isOk r (orders 0)).not.1 (by simp [encoded])
          simp [refused]
      | ok bytes =>
          simp only [encoded, ih]
          exact (and_iff_right ((encodeCELR_isOk r (orders 0)).1 ⟨bytes, encoded⟩)).symm

/-- **A decoded log re-encodes exactly when its digests have their sizes.** The decoder checks
no digest's length, the encoder checks every one: `EncodeCEL` of a log `DecodeToCEL` returned
fails exactly when some digest has not its algorithm's size. -/
theorem encodeCEL_decodeToCEL (b : Bytes) (d : EventLog) (decoded : decodeToCEL b = .ok d)
    (orders : Nat → RangeOrder Hash Bytes) :
    (d.encodeCEL orders []).2 = none ↔
      ∀ r ∈ d.recs, ∀ h dg, (h, dg) ∈ r.digests → dg.length = h.size := by
  have named : ∀ r ∈ d.recs, ∀ h dg, (h, dg) ∈ r.digests → ∃ a, h.toAlgorithm = .ok a := by
    simp only [decodeToCEL, bind_eq_ok] at decoded
    obtain ⟨recs, loop, done⟩ := decoded
    have sameRecs : d.recs = recs := by
      split at done
      · split at done <;> simp only [reduceCtorEq, pure, Except.pure, Except.ok.injEq] at done
        rw [← done]
      · simp only [pure, Except.pure, Except.ok.injEq] at done
        rw [← done]
    rw [sameRecs]
    exact fun r mem => (decodeRecords_named b [] recs loop r mem).resolve_left (by simp)
  rw [EventLog.encodeCEL, encodeRecords_isOk]
  exact ⟨fun sized r mem h dg entry => (sized r mem h dg entry).1,
    fun sized r mem h dg entry => ⟨sized r mem h dg entry, named r mem h dg entry⟩⟩

theorem encodeCEL_decodeToCEL_renumberedRecordBytes :
    decodeToCEL renumberedRecordBytes = .ok { recs := [renumberedRecord], type := 0 } ∧
      ((({ recs := [renumberedRecord], type := 0 } : EventLog).encodeCEL (fun _ => .inserted) []).2 =
          none ↔
        ∀ r ∈ [renumberedRecord], ∀ h dg, (h, dg) ∈ r.digests → dg.length = h.size) :=
  ⟨decodeToCEL_renumberedRecordBytes,
    encodeCEL_decodeToCEL _ _ decodeToCEL_renumberedRecordBytes (fun _ => .inserted)⟩

/-! ### Safety -/

theorem unmarshalRecNum_not_panicked (tlv : TLV) : panicked (unmarshalRecNum tlv) = false := by
  unfold unmarshalRecNum bigEndianUint64
  split_ifs <;> first | rfl | simp_all [recnumValueLength]; omega

theorem unmarshalIndex_not_panicked (tlv : TLV) : panicked (unmarshalIndex tlv) = false := by
  unfold unmarshalIndex
  split_ifs with typed sized
  · rfl
  · rfl
  · refine panicked_bind _ _ ?_ fun _ _ => rfl
    have : 0 < tlv.value.length := by simp_all [regIndexValueLength]; omega
    simp [byteAt, this]

theorem algorithmHash_not_panicked (alg : UInt16) : panicked (algorithmHash alg) = false := by
  unfold algorithmHash; split_ifs <;> rfl

theorem unmarshalDigests_not_panicked (tlv : TLV) : panicked (unmarshalDigests tlv) = false := by
  unfold unmarshalDigests
  split
  · rfl
  · generalize tlv.value = buf
    generalize ([] : GoMap Hash Bytes) = digestsMap
    induction buf, digestsMap using unmarshalDigestsFrom.induct with
    | case1 buf _ nonempty read =>
        rw [unmarshalDigestsFrom, if_pos nonempty]; split <;> simp_all
    | case2 buf _ nonempty err notEof read =>
        rw [unmarshalDigestsFrom, if_pos nonempty]
        split
        · simp_all
        · rename_i found
          have safe := unmarshalFirstTLV_not_panicked buf
          rw [found, panicked_error] at safe
          exact safe
        · simp_all
    | case3 buf _ nonempty digestTLV rest read err unnamed =>
        rw [unmarshalDigestsFrom, if_pos nonempty]
        split
        · simp_all
        · simp_all
        · rename_i found
          rw [read] at found
          simp only [Except.ok.injEq, Prod.mk.injEq] at found
          obtain ⟨rfl, rfl⟩ := found
          have safe := algorithmHash_not_panicked digestTLV.type.toNat.toUInt16
          rw [unnamed, panicked_error] at safe
          simp only [unnamed]
          exact safe
    | case4 buf _ nonempty digestTLV rest read hashAlg named ih =>
        rw [unmarshalDigestsFrom, if_pos nonempty]
        split
        · simp_all
        · simp_all
        · rename_i found
          rw [read] at found
          simp only [Except.ok.injEq, Prod.mk.injEq] at found
          obtain ⟨rfl, rfl⟩ := found
          simp only [named]
          exact ih
    | case5 buf _ empty =>
        rw [unmarshalDigestsFrom, if_neg empty]; rfl

theorem decodeToCELR_not_panicked (buf : Bytes) : panicked (decodeToCELR buf) = false := by
  unfold decodeToCELR
  refine panicked_bind _ _ (unmarshalFirstTLV_not_panicked _) fun ⟨recnum, buf⟩ _ => ?_
  refine panicked_bind _ _ (unmarshalRecNum_not_panicked _) fun recNum _ => ?_
  refine panicked_bind _ _ (unmarshalFirstTLV_not_panicked _) fun ⟨regIndex, buf⟩ _ => ?_
  refine panicked_bind _ _ (unmarshalIndex_not_panicked _) fun ⟨indexType, index⟩ _ => ?_
  refine panicked_bind _ _ (unmarshalFirstTLV_not_panicked _) fun ⟨digests, buf⟩ _ => ?_
  refine panicked_bind _ _ (unmarshalDigests_not_panicked _) fun digestsMap _ => ?_
  exact panicked_bind _ _ (unmarshalFirstTLV_not_panicked _) fun _ _ => rfl

theorem decodeRecords_not_panicked (buf : Bytes) (recs : List Record) :
    panicked (decodeRecords buf recs) = false := by
  induction buf, recs using decodeRecords.induct with
  | case1 buf _ nonempty failed =>
      rw [decodeRecords, if_pos nonempty]; split <;> simp_all
  | case2 buf _ nonempty err notEof failed =>
      rw [decodeRecords, if_pos nonempty]
      split
      · simp_all
      · rename_i found
        have safe := decodeToCELR_not_panicked buf
        rw [found, panicked_error] at safe
        exact safe
      · simp_all
  | case3 buf _ nonempty celr rest read ih =>
      rw [decodeRecords_step _ _ _ _ read]; exact ih
  | case4 buf _ empty =>
      rw [decodeRecords, if_neg empty]; rfl

theorem checkMRTypes_not_panic (zeroMRType : UInt8) (recs : List Record) (message : String) :
    checkMRTypes zeroMRType recs ≠ some (.panic message) := by
  induction recs with
  | nil => simp [checkMRTypes]
  | cons r rest ih =>
      simp only [checkMRTypes]
      split
      · simp
      · split
        · simp
        · exact ih

/-- **The decoder is safe.** On every byte string `DecodeToCEL` returns a log or an error and
never panics; neither do the field readers on any TLV; and every pass of the record loop and of
the digests loop consumes bytes. -/
theorem decodeToCEL_safe :
    (∀ b, panicked (decodeToCEL b) = false) ∧
    (∀ buf, panicked (unmarshalFirstTLV buf) = false) ∧
    (∀ tlv, panicked (unmarshalRecNum tlv) = false) ∧
    (∀ tlv, panicked (unmarshalIndex tlv) = false) ∧
    (∀ tlv, panicked (unmarshalDigests tlv) = false) ∧
    (∀ buf r rest, decodeToCELR buf = .ok (r, rest) → rest.length < buf.length) ∧
    (∀ buf t rest, unmarshalFirstTLV buf = .ok (t, rest) → rest.length < buf.length) := by
  refine ⟨fun b => ?_, unmarshalFirstTLV_not_panicked, unmarshalRecNum_not_panicked,
    unmarshalIndex_not_panicked, unmarshalDigests_not_panicked,
    fun _ _ _ read => by have := decodeToCELR_consumes read; omega,
    fun _ _ _ read => by have := unmarshalFirstTLV_consumes read; omega⟩
  unfold decodeToCEL
  refine panicked_bind _ _ (decodeRecords_not_panicked _ _) fun recs _ => ?_
  split
  · split
    · rename_i err checked
      cases err with
      | panic message => exact absurd checked (checkMRTypes_not_panic _ _ message)
      | _ => rfl
    · rfl
  · rfl

theorem decodeToCEL_encodeCEL_one_append :
    ∃ c' rot', appendRun (fakeRotExtender Hasher.tagged) (fun _ => .inserted)
        [⟨FakeTlv.toContent Hasher.tagged ⟨1, [1]⟩, [.sha256], 0⟩] newPCR
        ⟨[(.sha256, zeroBank .sha256 1)]⟩ = some (c', rot') ∧
      ∃ bytes, c'.encodeCEL (fun _ => .reversed) [] = (bytes, none) ∧
        decodeToCEL bytes = .ok { recs := rangedRecs (fun _ => .reversed) c'.recs,
                                  type := if 1 < c'.recs.length then c'.type else 0 } := by
  have callOk := fakeTlvCall_encodable Hasher.tagged ⟨1, [1]⟩ [.sha256] 0
    (by simp [Hash.toAlgorithm]) (by decide)
  exact ⟨_, _, rfl, decodeToCEL_encodeCEL_appendRun (fakeRotExtender Hasher.tagged)
    [⟨FakeTlv.toContent Hasher.tagged ⟨1, [1]⟩, [.sha256], 0⟩] (fun _ => .inserted) newPCR _
    ⟨[(.sha256, zeroBank .sha256 1)]⟩ _ (.inl rfl) (by simpa using callOk) rfl (fun _ => .reversed)⟩

end MeasuredBoot
