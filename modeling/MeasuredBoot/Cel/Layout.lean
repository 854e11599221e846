import MeasuredBoot.Cel.Codec

/-!
The bytes of a Canonical Event Log as the encoder lays them out: each digest entry one TLV,
each record its four TLVs in order, each log its records one after another (`digestFieldValue`,
`recordBytes`, `logBytes`). `DecodeToCEL` accepts exactly such layouts (`decodeToCEL_eq_ok`), and
`EncodeCEL` writes the records it read back to the same bytes exactly when each digest field names
every algorithm once, with a digest of its algorithm's size (`encodeCEL_logBytes`).
-/

namespace MeasuredBoot

/-! ### What the decoder accepts -/

/-- The value of a digest field as `createDigestField` lays out a list of entries: one TLV per
entry, typed by its algorithm's identifier, in the list's order. -/
def digestFieldValue (entries : List (Hash × Bytes)) : Bytes :=
  entries.flatMap fun entry => (TLV.mk entry.1.typeByte entry.2).marshalBinary

@[simp] theorem digestFieldValue_nil : digestFieldValue [] = [] := rfl

@[simp] theorem digestFieldValue_cons (entry : Hash × Bytes) (rest : List (Hash × Bytes)) :
    digestFieldValue (entry :: rest) =
      (TLV.mk entry.1.typeByte entry.2).marshalBinary ++ digestFieldValue rest := rfl

/-- An entry a digest field can carry: an algorithm with a TPM identifier, and a digest that
fits a TLV. -/
structure DigestEntryOk (entry : Hash × Bytes) : Prop where
  named : ∃ alg, entry.1.toAlgorithm = .ok alg
  fits : entry.2.length < 2 ^ 32

theorem unmarshalDigestsFrom_digestFieldValue (entries : List (Hash × Bytes))
    (valid : ∀ e ∈ entries, DigestEntryOk e) (start : GoMap Hash Bytes) :
    unmarshalDigestsFrom (digestFieldValue entries) start =
      .ok (entries.foldl (fun acc e => acc.insert e.1 e.2) start) := by
  induction entries generalizing start with
  | nil => exact unmarshalDigestsFrom_nil start
  | cons entry rest ih =>
      have ok := valid entry (List.mem_cons_self _ _)
      rw [digestFieldValue_cons, unmarshalDigestsFrom_marshalBinary _ _ _ ok.fits,
        algorithmHash_typeByte _ ok.named]
      exact ih (fun e mem => valid e (List.mem_cons_of_mem _ mem)) _

theorem unmarshalDigestsFrom_sound (buf : Bytes) (start m : GoMap Hash Bytes)
    (read : unmarshalDigestsFrom buf start = .ok m) :
    ∃ entries, (∀ e ∈ entries, DigestEntryOk e) ∧ buf = digestFieldValue entries ∧
      m = entries.foldl (fun acc e => acc.insert e.1 e.2) start := by
  induction buf, start using unmarshalDigestsFrom.induct with
  | case1 buf start nonempty failed =>
      rw [unmarshalDigestsFrom, if_pos nonempty] at read; split at read <;> simp_all
  | case2 buf start nonempty err notEof failed =>
      rw [unmarshalDigestsFrom, if_pos nonempty] at read; split at read <;> simp_all
  | case3 buf start nonempty digestTLV rest found err unnamed =>
      rw [unmarshalDigestsFrom, if_pos nonempty] at read; split at read <;> simp_all
  | case4 buf start nonempty digestTLV rest found hashAlg hashed ih =>
      rw [unmarshalDigestsFrom, if_pos nonempty] at read
      split at read
      · simp_all
      · simp_all
      · rename_i digestTLV' rest' found'
        rw [found] at found'
        obtain ⟨rfl, rfl⟩ := Prod.mk.inj (Except.ok.inj found')
        rw [hashed] at read
        obtain ⟨entries, valid, rfl, rfl⟩ := ih read
        obtain ⟨fits, rfl⟩ := (unmarshalFirstTLV_eq_ok _ _ _).1 found
        refine ⟨(hashAlg, digestTLV.value) :: entries, ?_, ?_, rfl⟩
        · rintro e (_ | ⟨_, mem⟩)
          · exact ⟨algorithmHash_named _ _ hashed, fits⟩
          · exact valid e mem
        · rw [digestFieldValue_cons, ← typeByte_of_algorithmHash _ _ hashed]
  | case5 buf start empty =>
      rw [unmarshalDigestsFrom, if_neg empty] at read
      cases read
      exact ⟨[], by simp, by simpa using empty, rfl⟩

theorem unmarshalDigests_sound (tlv : TLV) (m : GoMap Hash Bytes) (read : unmarshalDigests tlv = .ok m) :
    ∃ entries, (∀ e ∈ entries, DigestEntryOk e) ∧ tlv = ⟨digestsTypeValue, digestFieldValue entries⟩ ∧
      m = entries.foldl (fun (acc : GoMap Hash Bytes) e => acc.insert e.1 e.2) [] := by
  obtain ⟨typed, read⟩ := guard_eq_ok read
  obtain ⟨entries, valid, laid, rfl⟩ := unmarshalDigestsFrom_sound _ _ _ read
  exact ⟨entries, valid, by rw [← laid, ← not_not.1 typed], rfl⟩

theorem unmarshalRecNum_sound (tlv : TLV) (recNum : UInt64) (fits : tlv.value.length < 2 ^ 32)
    (read : unmarshalRecNum tlv = .ok recNum) : tlv = createRecNumField recNum := by
  obtain ⟨typed, read⟩ := guard_eq_ok read
  obtain ⟨eight, read⟩ := guard_eq_ok read
  rw [not_not, Nat.mod_eq_of_lt fits] at eight
  rw [bigEndianUint64, if_neg (by simp [eight, recnumValueLength]),
    List.take_of_length_le (by simp [eight, recnumValueLength]), Except.ok.injEq] at read
  have below : bigEndianValue tlv.value < 2 ^ 64 := by
    have := bigEndianValue_lt tlv.value
    rwa [eight] at this
  obtain ⟨type, value⟩ := tlv
  simp only at typed eight below
  rw [createRecNumField, ← read, ← not_not.1 typed, UInt64.toNat_ofNat_of_lt below, ← eight,
    putBigEndian_bigEndianValue]

theorem unmarshalIndex_sound (tlv : TLV) (indexType index : UInt8) (fits : tlv.value.length < 2 ^ 32)
    (read : unmarshalIndex tlv = .ok (indexType, index)) : tlv = createIndexField indexType index := by
  obtain ⟨-, read⟩ := guard_eq_ok read
  obtain ⟨one, read⟩ := guard_eq_ok read
  rw [not_not, Nat.mod_eq_of_lt fits] at one
  obtain ⟨type, value⟩ := tlv
  obtain ⟨b, rfl⟩ := List.length_eq_one.1 one
  simp only [byteAt, List.length_singleton, Nat.lt_irrefl, dite_true, Nat.zero_lt_one,
    List.getElem_singleton, bind, Except.bind, pure, Except.pure, Except.ok.injEq,
    Prod.mk.injEq] at read
  obtain ⟨rfl, rfl⟩ := read
  rfl

/-- The bytes of record `r` as `EncodeCELR` lays them out, with `entries` in its digest field. -/
def recordBytes (r : Record) (entries : List (Hash × Bytes)) : Bytes :=
  (createRecNumField r.recNum).marshalBinary ++ (createIndexField r.indexType r.index).marshalBinary ++
    (TLV.mk digestsTypeValue (digestFieldValue entries)).marshalBinary ++ r.content.marshalBinary

/-- What `decodeToCELR` asks of record `r` laid out with `entries`: entries a digest field can
carry, fields that fit their TLVs, a register type, and the map the entries give. -/
structure RecordBytesOk (r : Record) (entries : List (Hash × Bytes)) : Prop where
  valid : ∀ e ∈ entries, DigestEntryOk e
  fieldFits : (digestFieldValue entries).length < 2 ^ 32
  contentFits : r.content.value.length < 2 ^ 32
  supported : supportedMRType r.indexType = none
  digests : r.digests = entries.foldl (fun (acc : GoMap Hash Bytes) e => acc.insert e.1 e.2) []

theorem RecordBytesOk.nodup_keys {r : Record} {entries : List (Hash × Bytes)}
    (ok : RecordBytesOk r entries) : r.digests.keys.Nodup :=
  ok.digests ▸ GoMap.nodup_keys_foldl_insert entries [] List.nodup_nil

theorem decodeToCELR_eq_ok (buf rest : Bytes) (r : Record) :
    decodeToCELR buf = .ok (r, rest) ↔
      ∃ entries, RecordBytesOk r entries ∧ buf = recordBytes r entries ++ rest := by
  constructor
  · intro decoded
    simp only [decodeToCELR, bind_eq_ok] at decoded
    obtain ⟨⟨recnum, afterRecNum⟩, first, recNum, recRead, ⟨regIndex, afterIndex⟩, second,
      ⟨indexType, index⟩, indexRead, ⟨digests, afterDigests⟩, third, digestsMap, digestsRead,
      ⟨content, afterContent⟩, fourth, done⟩ := decoded
    simp only [pure, Except.pure, Except.ok.injEq, Prod.mk.injEq] at done
    obtain ⟨rfl, rfl⟩ := done
    obtain ⟨recnumFits, rfl⟩ := (unmarshalFirstTLV_eq_ok _ _ _).1 first
    obtain ⟨indexFits, rfl⟩ := (unmarshalFirstTLV_eq_ok _ _ _).1 second
    obtain ⟨digestsFit, rfl⟩ := (unmarshalFirstTLV_eq_ok _ _ _).1 third
    obtain ⟨contentFits, rfl⟩ := (unmarshalFirstTLV_eq_ok _ _ _).1 fourth
    obtain ⟨entries, valid, rfl, rfl⟩ := unmarshalDigests_sound _ _ digestsRead
    refine ⟨entries, ⟨valid, digestsFit, contentFits, unmarshalIndex_eq_ok _ _ _ indexRead, rfl⟩, ?_⟩
    rw [unmarshalRecNum_sound _ _ recnumFits recRead, unmarshalIndex_sound _ _ _ indexFits indexRead]
    simp [recordBytes]
  · rintro ⟨entries, ok, rfl⟩
    rw [recordBytes, decodeToCELR_marshalBinary _ _ _ _ _
      (by simp [createRecNumField, recnumValueLength]) (by simp [createIndexField]) ok.fieldFits
      ok.contentFits, unmarshalRecNum_createRecNumField,
      unmarshalIndex_createIndexField _ _ ok.supported]
    simp only [unmarshalDigests, digestsTypeValue, ne_eq, not_true_eq_false, if_false,
      unmarshalDigestsFrom_digestFieldValue _ ok.valid, ← ok.digests]
    rfl

/-- Records laid out one after another, each with the entries of its digest field. -/
def logBytes (laid : List (Record × List (Hash × Bytes))) : Bytes :=
  laid.flatMap fun p => recordBytes p.1 p.2

@[simp] theorem logBytes_nil : logBytes [] = [] := rfl

@[simp] theorem logBytes_cons (p : Record × List (Hash × Bytes)) (rest : List (Record × List (Hash × Bytes))) :
    logBytes (p :: rest) = recordBytes p.1 p.2 ++ logBytes rest := rfl

theorem decodeRecords_eq_ok (buf : Bytes) (acc recs : List Record) :
    decodeRecords buf acc = .ok recs ↔ ∃ laid : List (Record × List (Hash × Bytes)),
      (∀ p ∈ laid, RecordBytesOk p.1 p.2) ∧ buf = logBytes laid ∧ recs = acc ++ laid.map Prod.fst := by
  constructor
  · intro decoded
    induction buf, acc using decodeRecords.induct with
    | case1 buf acc nonempty failed =>
        rw [decodeRecords, if_pos nonempty] at decoded; split at decoded <;> simp_all
    | case2 buf acc nonempty err notEof failed =>
        rw [decodeRecords, if_pos nonempty] at decoded; split at decoded <;> simp_all
    | case3 buf acc nonempty celr rest read ih =>
        rw [decodeRecords_step buf rest celr acc read] at decoded
        obtain ⟨laid, ok, rfl, rfl⟩ := ih decoded
        obtain ⟨entries, recordOk, rfl⟩ := (decodeToCELR_eq_ok _ _ _).1 read
        refine ⟨(celr, entries) :: laid, ?_, rfl, by simp⟩
        rintro p (_ | ⟨_, mem⟩)
        · exact recordOk
        · exact ok p mem
    | case4 buf acc empty =>
        rw [decodeRecords, if_neg empty] at decoded
        cases decoded
        exact ⟨[], by simp, by simpa using empty, by simp⟩
  · rintro ⟨laid, ok, rfl, rfl⟩
    induction laid generalizing acc with
    | nil => simp [decodeRecords_nil]
    | cons p rest ih =>
        have read := (decodeToCELR_eq_ok (recordBytes p.1 p.2 ++ logBytes rest) _ p.1).2
          ⟨p.2, ok p (List.mem_cons_self _ _), rfl⟩
        rw [logBytes_cons, decodeRecords_step _ _ _ _ read,
          ih _ (fun p mem => ok p (List.mem_cons_of_mem _ mem))]
        simp

/-- **What `DecodeToCEL` accepts.** It decodes a log exactly from records laid out one after
another as the writer lays them out (with digest fields as `decodeToCELR_eq_ok` allows), each on a
register type; a log of two records or more must keep to one type, which becomes its own, and a
shorter one has type 0. -/
theorem decodeToCEL_eq_ok (b : Bytes) (d : EventLog) :
    decodeToCEL b = .ok d ↔ ∃ laid : List (Record × List (Hash × Bytes)),
      (∀ p ∈ laid, RecordBytesOk p.1 p.2) ∧ b = logBytes laid ∧ d.recs = laid.map Prod.fst ∧
      (1 < d.recs.length → ∀ r ∈ d.recs, r.indexType = d.type) ∧ (d.recs.length ≤ 1 → d.type = 0) := by
  simp only [decodeToCEL, bind_eq_ok, decodeRecords_eq_ok, List.nil_append]
  constructor
  · rintro ⟨_, ⟨laid, ok, rfl, rfl⟩, done⟩
    refine ⟨laid, ok, rfl, ?_⟩
    generalize laid.map Prod.fst = recs at done ⊢
    match recs, done with
    | [], rfl | [_], rfl => exact ⟨rfl, by simp, fun _ => rfl⟩
    | first :: second :: rest, done =>
        cases checked : checkMRTypes first.indexType (first :: second :: rest) with
        | some err => simp only [checked, reduceCtorEq] at done
        | none =>
            simp only [checked, pure, Except.pure, Except.ok.injEq] at done
            subst done
            exact ⟨rfl, fun _ r mem => ((checkMRTypes_eq_none_iff _ _).1 checked r mem).2, by simp⟩
  · rintro ⟨laid, ok, rfl, recsLaid, typed, zero⟩
    refine ⟨_, ⟨laid, ok, rfl, rfl⟩, ?_⟩
    have supported : ∀ r ∈ laid.map Prod.fst, supportedMRType r.indexType = none := by
      simp only [List.mem_map]
      rintro _ ⟨p, mem, rfl⟩
      exact (ok p mem).supported
    obtain ⟨recs, type⟩ := d
    simp only at recsLaid typed zero
    subst recsLaid
    generalize laid.map Prod.fst = recs at typed zero supported ⊢
    match recs with
    | [] | [_] => rw [zero (by simp)]; rfl
    | first :: second :: rest =>
        have sameType : first.indexType = type := typed (by simp) first (List.mem_cons_self _ _)
        dsimp only
        rw [checkMRTypes_eq_none first.indexType _ fun r mem =>
          ⟨supported r mem, (typed (by simp) r mem).trans sameType.symm⟩, sameType]
        rfl

/-! ### Re-encoding what was read -/

theorem writeDigests_eq_ok_iff (m : GoMap Hash Bytes) (written : Bytes) :
    writeDigests m = .ok written ↔
      (∀ e ∈ m, e.2.length = e.1.size ∧ ∃ alg, e.1.toAlgorithm = .ok alg) ∧
        written = digestFieldValue m := by
  induction m generalizing written with
  | nil => simp [writeDigests, eq_comm]
  | cons entry rest ih =>
      obtain ⟨hashAlgo, hash⟩ := entry
      rw [writeDigests, List.forall_mem_cons, digestFieldValue_cons]
      by_cases sized : hash.length = hashAlgo.size
      swap
      · simp only [sized, ne_eq, not_false_eq_true, if_true, reduceCtorEq, false_and, and_false, false_iff]
      cases named : hashAlgo.toAlgorithm with
      | error err =>
          simp only [sized, ne_eq, not_true_eq_false, if_false, named, bind, Except.bind, reduceCtorEq,
            exists_false, and_false, false_and, false_iff, not_false_eq_true]
      | ok alg =>
          simp only [sized, ne_eq, not_true_eq_false, if_false, named, bind_eq_ok, pure, Except.pure,
            Except.ok.injEq, ih, Hash.typeByte]
          constructor
          · rintro ⟨_, rfl, _, ⟨all, rfl⟩, rfl⟩
            exact ⟨⟨⟨trivial, _, rfl⟩, all⟩, rfl⟩
          · rintro ⟨⟨-, all⟩, rfl⟩
            exact ⟨_, rfl, _, ⟨all, rfl⟩, rfl⟩

theorem encodeCELR_eq_ok_iff (r : Record) (order : RangeOrder Hash Bytes) (bytes : Bytes) :
    r.encodeCELR order = .ok bytes ↔
      (∀ e ∈ r.digests, e.2.length = e.1.size ∧ ∃ alg, e.1.toAlgorithm = .ok alg) ∧
        bytes = recordBytes r (order.visit r.digests) := by
  simp only [Record.encodeCELR, createDigestField, bind_eq_ok, writeDigests_eq_ok_iff,
    RangeOrder.mem_visit, pure, Except.pure, Except.ok.injEq]
  constructor
  · rintro ⟨_, ⟨_, ⟨wellFormed, rfl⟩, rfl⟩, rfl⟩
    exact ⟨wellFormed, rfl⟩
  · rintro ⟨wellFormed, rfl⟩
    exact ⟨_, ⟨_, ⟨wellFormed, rfl⟩, rfl⟩, rfl⟩

theorem digestFieldValue_inj (entries entries' : List (Hash × Bytes))
    (valid : ∀ e ∈ entries, DigestEntryOk e) (valid' : ∀ e ∈ entries', DigestEntryOk e)
    (same : digestFieldValue entries = digestFieldValue entries') : entries = entries' := by
  induction entries generalizing entries' with
  | nil =>
      cases entries' with
      | nil => rfl
      | cons e' rest' => simp [TLV.marshalBinary] at same
  | cons e rest ih =>
      cases entries' with
      | nil => simp [TLV.marshalBinary] at same
      | cons e' rest' =>
          have ok := valid e (List.mem_cons_self _ _)
          have ok' := valid' e' (List.mem_cons_self _ _)
          have read := unmarshalFirstTLV_marshalBinary ⟨e.1.typeByte, e.2⟩ (digestFieldValue rest) ok.fits
          rw [← digestFieldValue_cons, same, digestFieldValue_cons,
            unmarshalFirstTLV_marshalBinary _ _ ok'.fits] at read
          simp only [Except.ok.injEq, Prod.mk.injEq, TLV.mk.injEq] at read
          obtain ⟨⟨types, digests⟩, rests⟩ := read
          have hashes : e.1 = e'.1 := by
            have named := algorithmHash_typeByte e'.1 ok'.named
            rwa [types, algorithmHash_typeByte _ ok.named, Except.ok.injEq] at named
          rw [Prod.ext hashes digests.symm, ih rest' (fun e mem => valid e (List.mem_cons_of_mem _ mem))
            (fun e mem => valid' e (List.mem_cons_of_mem _ mem)) rests.symm]

/-- Digest entries the writer can lay out as they are: each algorithm once, each digest of its
algorithm's size. -/
def CanonicalEntries (entries : List (Hash × Bytes)) : Prop :=
  (entries.map Prod.fst).Nodup ∧ ∀ e ∈ entries, e.2.length = e.1.size

instance : DecidablePred CanonicalEntries := fun entries =>
  inferInstanceAs (Decidable ((entries.map Prod.fst).Nodup ∧ ∀ e ∈ entries, e.2.length = e.1.size))

theorem encodeCELR_recordBytes (r : Record) (entries : List (Hash × Bytes))
    (ok : RecordBytesOk r entries) (order : RangeOrder Hash Bytes) :
    r.encodeCELR order = .ok (recordBytes r entries) ↔
      CanonicalEntries entries ∧ order.visit r.digests = entries := by
  rw [encodeCELR_eq_ok_iff]
  constructor
  · rintro ⟨wellFormed, laid⟩
    simp only [recordBytes, List.append_cancel_left_eq, List.append_cancel_right_eq] at laid
    have visited : ∀ e ∈ order.visit r.digests, e.2.length = e.1.size ∧ ∃ alg, e.1.toAlgorithm = .ok alg :=
      fun e mem => wellFormed e ((order.mem_visit _ _).1 mem)
    have same : entries = order.visit r.digests := by
      refine digestFieldValue_inj _ _ ok.valid (fun e mem => ⟨(visited e mem).2, ?_⟩)
        (TLV.mk.inj (TLV.marshalBinary_inj laid)).2
      rw [(visited e mem).1]
      cases e.1 <;> decide
    subst same
    exact ⟨⟨order.nodup_keys_visit _ ok.nodup_keys, fun e mem => (visited e mem).1⟩, rfl⟩
  · rintro ⟨⟨-, sized⟩, rfl⟩
    exact ⟨fun e mem => ⟨sized e ((order.mem_visit _ _).2 mem),
      (ok.valid e ((order.mem_visit _ _).2 mem)).named⟩, rfl⟩

theorem encodable_of_encodeCELR (r : Record) (entries : List (Hash × Bytes)) (ok : RecordBytesOk r entries)
    (order : RangeOrder Hash Bytes) (bytes : Bytes) (encoded : r.encodeCELR order = .ok bytes) :
    r.Encodable := by
  obtain ⟨wellFormed, -⟩ := (encodeCELR_eq_ok_iff r order bytes).1 encoded
  refine ⟨ok.nodup_keys, fun h d mem => (wellFormed (h, d) mem).1, fun h mem => ?_, ok.contentFits,
    ok.supported⟩
  obtain ⟨⟨h', d⟩, entry, rfl⟩ := List.mem_map.1 mem
  exact (wellFormed (h', d) entry).2

theorem encodeRecords_fst (orders : Nat → RangeOrder Hash Bytes) (recs : List Record) (buf : Bytes) :
    ∃ out, (encodeRecords orders recs buf).1 = buf ++ out := by
  induction recs generalizing orders buf with
  | nil => exact ⟨[], by simp [encodeRecords]⟩
  | cons r rest ih =>
      cases encoded : r.encodeCELR (orders 0) with
      | error err => exact ⟨[], by simp [encodeRecords, encoded]⟩
      | ok bytes =>
          obtain ⟨out, wrote⟩ := ih (fun i => orders (i + 1)) (buf ++ bytes)
          exact ⟨bytes ++ out, by simp [encodeRecords, encoded, wrote]⟩

theorem forall_getElem?_cons {α : Type} (P : Nat → α → Prop) (a : α) (l : List α) :
    (∀ i b, (a :: l)[i]? = some b → P i b) ↔ P 0 a ∧ ∀ i b, l[i]? = some b → P (i + 1) b := by
  refine ⟨fun all => ⟨all 0 a List.getElem?_cons_zero,
    fun i b found => all (i + 1) b (by rwa [List.getElem?_cons_succ])⟩, ?_⟩
  rintro ⟨first, rest⟩ (_ | i) b found
  · simp only [List.getElem?_cons_zero, Option.some.injEq] at found
    exact found ▸ first
  · exact rest i b (by rwa [List.getElem?_cons_succ] at found)

theorem encodeRecords_logBytes (laid : List (Record × List (Hash × Bytes)))
    (ok : ∀ p ∈ laid, RecordBytesOk p.1 p.2) (orders : Nat → RangeOrder Hash Bytes) (buf : Bytes) :
    encodeRecords orders (laid.map Prod.fst) buf = (buf ++ logBytes laid, none) ↔
      ∀ i p, laid[i]? = some p → CanonicalEntries p.2 ∧ (orders i).visit p.1.digests = p.2 := by
  induction laid generalizing orders buf with
  | nil => simp [encodeRecords]
  | cons p rest ih =>
      have pOk := ok p (List.mem_cons_self _ _)
      have restOk := fun q mem => ok q (List.mem_cons_of_mem p mem)
      simp only [List.map_cons, encodeRecords, logBytes_cons, forall_getElem?_cons]
      cases encoded : p.1.encodeCELR (orders 0) with
      | error err =>
          simp only [Prod.mk.injEq, reduceCtorEq, and_false, false_iff, not_and]
          intro canonical
          rw [(encodeCELR_recordBytes _ _ pOk _).2 canonical] at encoded
          cases encoded
      | ok bytes =>
          have canonical : CanonicalEntries p.2 ∧ (orders 0).visit p.1.digests = p.2 ↔
              bytes = recordBytes p.1 p.2 := by
            rw [← encodeCELR_recordBytes _ _ pOk, encoded, Except.ok.injEq]
          rw [canonical, ← ih restOk _ (buf ++ bytes)]
          dsimp only
          constructor
          · intro wrote
            obtain ⟨out, first⟩ := encodeRecords_fst (fun i => orders (i + 1)) (rest.map Prod.fst)
              (buf ++ bytes)
            have split : bytes ++ out = recordBytes p.1 p.2 ++ logBytes rest := by
              simpa [first] using congrArg Prod.fst wrote
            obtain ⟨bytes', encoded', reads⟩ := decodeToCELR_encodeCELR p.1
              (encodable_of_encodeCELR p.1 p.2 pOk _ bytes encoded) (orders 0)
            rw [encoded, Except.ok.injEq] at encoded'
            subst encoded'
            have rest_eq : out = logBytes rest := by
              have read := reads out
              rw [split, (decodeToCELR_eq_ok _ _ _).2 ⟨p.2, pOk, rfl⟩] at read
              exact (Prod.mk.inj (Except.ok.inj read)).2.symm
            subst rest_eq
            exact ⟨List.append_cancel_right split, by rw [wrote, List.append_assoc, split]⟩
          · rintro ⟨rfl, wrote⟩
            rw [wrote, List.append_assoc]

/-- **Which bytes a log re-encodes to.** For records read from a layout, as `decodeToCEL_eq_ok`
describes what the decoder reads, `EncodeCEL` writes that layout back exactly when every
record's digest field names each algorithm once, each with a digest of its algorithm's size, and
the record's digest loop visits the map in the field's order. Go picks that order anew at every
loop, so a record with two digests or more is written back on some runs and not on others; a
repeated algorithm is read, keeping its last digest, and written once; a digest of another size
is read, and makes the encoder fail. -/
theorem encodeCEL_logBytes (c : EventLog) (laid : List (Record × List (Hash × Bytes)))
    (ok : ∀ p ∈ laid, RecordBytesOk p.1 p.2) (recs : c.recs = laid.map Prod.fst)
    (orders : Nat → RangeOrder Hash Bytes) :
    c.encodeCEL orders [] = (logBytes laid, none) ↔
      ∀ i p, laid[i]? = some p → CanonicalEntries p.2 ∧ (orders i).visit p.1.digests = p.2 := by
  rw [EventLog.encodeCEL, recs]
  simpa only [List.nil_append] using encodeRecords_logBytes laid ok orders []

/-- A record with a SHA-1 and a SHA-256 digest, each of its algorithm's size. -/
def twoDigestRecord : Record :=
  { recNum := 0, index := 0, indexType := pcrType, digests := [(.sha1, zeros 20), (.sha256, zeros 32)],
    content := ⟨0, []⟩ }

theorem encodeCEL_logBytes_twoDigests :
    (∀ p ∈ [(twoDigestRecord, twoDigestRecord.digests)], RecordBytesOk p.1 p.2) ∧
      (⟨[twoDigestRecord], pcrType⟩ : EventLog).encodeCEL (fun _ => .inserted) [] =
        (logBytes [(twoDigestRecord, twoDigestRecord.digests)], none) ∧
      (⟨[twoDigestRecord], pcrType⟩ : EventLog).encodeCEL (fun _ => .reversed) [] ≠
        (logBytes [(twoDigestRecord, twoDigestRecord.digests)], none) := by
  have ok : ∀ p ∈ [(twoDigestRecord, twoDigestRecord.digests)], RecordBytesOk p.1 p.2 := by
    simp only [List.mem_singleton]
    rintro p rfl
    refine ⟨fun e mem => ?_, by decide, by decide, rfl, rfl⟩
    simp only [twoDigestRecord, List.mem_cons, List.mem_singleton, List.not_mem_nil, or_false] at mem
    rcases mem with rfl | rfl <;> exact ⟨⟨_, rfl⟩, by decide⟩
  refine ⟨ok, (encodeCEL_logBytes ⟨[twoDigestRecord], pcrType⟩ _ ok rfl (fun _ => .inserted)).2
    ((forall_getElem?_cons _ _ _).2 ⟨⟨by decide, rfl⟩, fun i p found => by simp at found⟩),
    fun encoded => ?_⟩
  have visited := ((encodeCEL_logBytes ⟨[twoDigestRecord], pcrType⟩ _ ok rfl
    (fun _ => .reversed)).1 encoded 0 _ rfl).2
  simp [RangeOrder.reversed, twoDigestRecord] at visited

end MeasuredBoot
