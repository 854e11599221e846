import MeasuredBoot.Cel.Codec

/-!
What a verifier checks of the records of a Canonical Event Log: that a record's content parses
(`ParseToFakeTlv`, for the fake content of the tests) and that its digests are the content's own
(`VerifyDigests`). A run of `AppendEvent` adds one record per call, numbered in order; encoded
and decoded, every such record passes both checks, with the content it was appended with.
-/

namespace MeasuredBoot

variable {σ : Type}

/-! ### `VerifyDigests` -/

theorem verifyDigests_eq_none_iff (c : Content) (digestMap : GoMap Hash Bytes) :
    verifyDigests c digestMap = none ↔ ∀ h d, (h, d) ∈ digestMap → c.generateDigest h = .ok d := by
  induction digestMap with
  | nil => simp [verifyDigests]
  | cons entry rest ih =>
      obtain ⟨hash, digest⟩ := entry
      simp only [List.mem_cons, Prod.mk.injEq]
      cases generated : c.generateDigest hash with
      | error err =>
          simp only [verifyDigests, generated, reduceCtorEq, false_iff]
          intro all
          cases generated ▸ all hash digest (.inl ⟨rfl, rfl⟩)
      | ok generatedDigest =>
          by_cases same : generatedDigest = digest
          · subst same
            simp only [verifyDigests, generated, ne_eq, not_true_eq_false, if_false, ih]
            constructor
            · rintro all h d (⟨rfl, rfl⟩ | mem)
              · exact generated
              · exact all h d mem
            · exact fun all h d mem => all h d (.inr mem)
          · simp only [verifyDigests, generated, ne_eq, same, not_false_eq_true, if_true,
              reduceCtorEq, false_iff]
            intro all
            exact same (Except.ok.inj (generated ▸ all hash digest (.inl ⟨rfl, rfl⟩)))

theorem verifyDigests_generateDigestMap (event : Content) (hashAlgos : List Hash)
    (digestMap : GoMap Hash Bytes) (generated : generateDigestMap hashAlgos event = .ok digestMap) :
    verifyDigests event digestMap = none :=
  (verifyDigests_eq_none_iff event digestMap).2 fun h d mem =>
    (generateDigestMap_mem event hashAlgos digestMap generated h d mem).2

/-! ### The fake content -/

theorem parseToFakeTlv_tlv (f : FakeTlv) : f.tlv.parseToFakeTlv = .ok f := by
  rw [FakeTlv.tlv, TLV.parseToFakeTlv, if_neg (by simp [TLV.isFakeTLV])]
  simp only [TLV.unmarshalBinary_marshalBinary]
  rfl

/-- **What `ParseToFakeTlv` accepts.** It returns `f` exactly on the TLV that `FakeTlv.TLV`
makes of `f`, whatever the length of `f`'s content: the fake TLVs and their encodings are in
one-to-one correspondence. -/
theorem parseToFakeTlv_eq_ok_iff (t : TLV) (f : FakeTlv) : t.parseToFakeTlv = .ok f ↔ t = f.tlv := by
  refine ⟨fun parsed => ?_, fun made => made ▸ parseToFakeTlv_tlv f⟩
  obtain ⟨fake, parsed⟩ := guard_eq_ok parsed
  obtain ⟨nested, unmarshalled, made⟩ := (bind_eq_ok _ _ _).1 parsed
  cases made
  by_cases long : 5 ≤ t.value.length
  · obtain ⟨type, lengthField, value, four, split⟩ := TLV.framed_of_length _ long
    rw [split, TLV.unmarshalBinary_framed _ _ _ four] at unmarshalled
    obtain ⟨agrees, unmarshalled⟩ := guard_eq_ok (by rwa [← ite_not] at unmarshalled)
    cases unmarshalled
    obtain ⟨type', value'⟩ := t
    simp only [TLV.isFakeTLV, Bool.not_eq_true', beq_eq_false_iff_ne, ne_eq, not_not] at fake split
    rw [FakeTlv.tlv, TLV.marshalBinary, fake, split,
      putBigEndian_of_agrees lengthField _ four (not_not.1 agrees)]
  · rw [TLV.unmarshalBinary_short _ (by omega)] at unmarshalled
    cases unmarshalled

/-! ### Runs of `AppendEvent` -/

/-- What the record of a successful call holds, in a log of type `type`. -/
def AppendedBy (type : UInt8) (call : AppendCall) (r : Record) : Prop :=
  r.index = UInt8.ofNat call.mrIndex.toNat ∧ r.indexType = type ∧
    generateDigestMap call.bankAlgos call.event = .ok r.digests ∧ call.event.getTLV = .ok r.content

theorem appendRun_records (extender : MRExtender σ) (orders : Nat → RangeOrder Hash Bytes)
    (calls : List AppendCall) (c c' : EventLog) (rot rot' : σ)
    (ran : appendRun extender orders calls c rot = some (c', rot')) :
    c'.type = c.type ∧ ∃ news, c'.recs = c.recs ++ news ∧
      news.map Record.recNum = (List.range' c.recs.length calls.length).map UInt64.ofNat ∧
      List.Forall₂ (AppendedBy c.type) calls news := by
  induction calls generalizing orders c rot with
  | nil =>
      simp only [appendRun, Option.some.injEq, Prod.mk.injEq] at ran
      obtain ⟨rfl, rfl⟩ := ran
      exact ⟨rfl, [], by simp, rfl, .nil⟩
  | cons call rest ih =>
      simp only [appendRun] at ran
      rcases appended : c.appendEvent call.event call.bankAlgos call.mrIndex extender (orders 0) rot
        with ⟨c1, rot1, _ | err⟩
      · rw [appended] at ran
        obtain ⟨-, -, -, digestMap, eventTlv, generated, -, tlv, rfl⟩ :=
          (appendEvent_eq_success _ _ _ _ _ _ _ rot rot1).mp appended
        obtain ⟨sameType, news, grown, numbered, made⟩ := ih _ _ _ ran
        refine ⟨sameType, appendedRecord c call.mrIndex digestMap eventTlv :: news, ?_, ?_,
          .cons ⟨rfl, rfl, generated, tlv⟩ made⟩
        · simp [grown]
        · simp only [List.map_cons, numbered, List.length_append, List.length_singleton,
            List.length_cons, List.range'_succ]
          rfl
      · simp [appended] at ran

theorem forall₂_rangedRecs {β : Type} {R : Record → β → Prop}
    (unordered : ∀ r order b, R r b → R (r.ranged order) b) (orders : Nat → RangeOrder Hash Bytes)
    {recs : List Record} {l : List β} (related : List.Forall₂ R recs l) :
    List.Forall₂ R (rangedRecs orders recs) l := by
  induction related generalizing orders with
  | nil => exact .nil
  | cons head _ ih => exact (rangedRecs_cons _ _ _).symm ▸ .cons (unordered _ _ _ head) (ih _)

/-- **Measure, encode, decode, verify.** Append fake events to a new log through any extender,
with banks that have a TPM identifier and TLVs that fit: the log encodes without error, and the
records decoded from it are numbered in order; each is on the register its event was measured
into, its content parses back to that event, and its digests are ones `VerifyDigests` accepts
for the event. -/
theorem decodeToCEL_encodeCEL_verifies (H : Hasher) (extender : MRExtender σ)
    (measured : List (FakeTlv × List Hash × Int)) (appendOrders : Nat → RangeOrder Hash Bytes)
    (c c' : EventLog) (rot rot' : σ) (fresh : c = newPCR ∨ c = newConfComputeMR)
    (named : ∀ m ∈ measured, ∀ h ∈ m.2.1, ∃ alg, h.toAlgorithm = .ok alg)
    (fits : ∀ m ∈ measured, m.1.tlv.value.length < 2 ^ 32)
    (ran : appendRun extender appendOrders (measured.map (fakeAppend H)) c rot = some (c', rot'))
    (orders : Nat → RangeOrder Hash Bytes) :
    ∃ bytes decoded, c'.encodeCEL orders [] = (bytes, none) ∧ decodeToCEL bytes = .ok decoded ∧
      decoded.recs.map Record.recNum = (List.range measured.length).map UInt64.ofNat ∧
      List.Forall₂ (fun r m => r.index = UInt8.ofNat m.2.2.toNat ∧
        r.content.parseToFakeTlv = .ok m.1 ∧ verifyDigests (m.1.toContent H) r.digests = none)
        decoded.recs measured := by
  have callsOk : ∀ call ∈ measured.map (fakeAppend H), call.Encodable := by
    simp only [List.mem_map]
    rintro _ ⟨m, mem, rfl⟩
    exact fakeTlvCall_encodable H m.1 m.2.1 m.2.2 (named m mem) (fits m mem)
  have encodable : c'.Encodable :=
    appendRun_invariant extender (fun c _ => c.Encodable) _
      (fun call mem order c c' rot rot' =>
        encodable_appendEvent c c' extender order rot rot' call (callsOk call mem))
      appendOrders c c' rot rot'
      (by rcases fresh with rfl | rfl <;> simp [EventLog.Encodable, newPCR, newConfComputeMR]) ran
  obtain ⟨bytes, encoded, decoded⟩ := decodeToCEL_encodeCEL c' encodable orders
  obtain ⟨-, news, grown, numbered, made⟩ := appendRun_records extender _ _ c c' rot rot' ran
  have empty : c.recs = [] := by rcases fresh with rfl | rfl <;> rfl
  refine ⟨bytes, _, encoded, decoded, ?_, ?_⟩
  · rw [grown, empty, List.nil_append, map_rangedRecs Record.recNum (fun _ _ => rfl), numbered, empty,
      List.length_nil, List.length_map, List.range_eq_range']
  rw [grown, empty, List.nil_append]
  refine forall₂_rangedRecs (fun r order m verified => ?_) orders (List.Forall₂.flip
    ((List.forall₂_map_left_iff.1 made).imp fun m r appended => ?_))
  · obtain ⟨index, parsed, digests⟩ := verified
    refine ⟨index, parsed, (verifyDigests_eq_none_iff _ _).2 fun h d mem => ?_⟩
    exact (verifyDigests_eq_none_iff _ _).1 digests h d ((order.mem_visit _ _).1 mem)
  · obtain ⟨index, -, generated, tlv⟩ := appended
    simp only [fakeAppend, FakeTlv.toContent, Except.ok.injEq] at tlv
    exact ⟨index, tlv ▸ parseToFakeTlv_tlv m.1, verifyDigests_generateDigestMap _ _ _ generated⟩

theorem decodeToCEL_encodeCEL_verifies_testEvents :
    ∃ rot c' rot', createFakeRot [.sha1, .sha256] 24 = .ok rot ∧
      appendRun (fakeRotExtender Hasher.tagged) (fun _ => .reversed)
        (testEvents.map (fakeAppend Hasher.tagged)) newPCR rot = some (c', rot') ∧
      ∃ bytes decoded, c'.encodeCEL (fun _ => .reversed) [] = (bytes, none) ∧
        decodeToCEL bytes = .ok decoded ∧
        decoded.recs.map Record.recNum = (List.range testEvents.length).map UInt64.ofNat ∧
        List.Forall₂ (fun r m => r.index = UInt8.ofNat m.2.2.toNat ∧
          r.content.parseToFakeTlv = .ok m.1 ∧
          verifyDigests (m.1.toContent Hasher.tagged) r.digests = none) decoded.recs testEvents := by
  obtain ⟨rot, created⟩ : ∃ rot, createFakeRot [.sha1, .sha256] 24 = .ok rot := ⟨_, rfl⟩
  obtain ⟨c', rot', ran⟩ : ∃ c' rot', appendRun (fakeRotExtender Hasher.tagged) (fun _ => .reversed)
      (testEvents.map (fakeAppend Hasher.tagged)) newPCR rot = some (c', rot') := by
    rw [createFakeRot] at created
    cases created
    exact ⟨_, _, rfl⟩
  exact ⟨rot, c', rot', created, ran, decodeToCEL_encodeCEL_verifies Hasher.tagged
    (fakeRotExtender Hasher.tagged) testEvents _ newPCR c' rot rot' (.inl rfl)
    (by simp [testEvents, Hash.toAlgorithm]) (by decide) ran (fun _ => .reversed)⟩

end MeasuredBoot
