import MeasuredBoot.Cel.Replay

/-!
Appending events. `appendEvent_eq_success` and `appendEvent_failed` say everything a call of
`AppendEvent` can do; the rest of the module follows the fake root of trust through runs of
successful appends and compares it with the log's replay.
-/

namespace MeasuredBoot

variable {σ : Type}

theorem generateDigestMapFrom_eq_ok (event : Content) (start m : GoMap Hash Bytes)
    (hashAlgos : List Hash) (generated : generateDigestMapFrom event start hashAlgos = .ok m) :
    (start.keys.Nodup → m.keys.Nodup) ∧ ∀ h, (m.get? h).isSome ↔ (start.get? h).isSome ∨ h ∈ hashAlgos := by
  induction hashAlgos generalizing start with
  | nil =>
      simp only [generateDigestMapFrom, Except.ok.injEq] at generated
      subst generated; simp
  | cons hashAlgo rest ih =>
      simp only [generateDigestMapFrom] at generated
      cases digest : event.generateDigest hashAlgo with
      | error => simp [digest] at generated
      | ok d =>
          simp only [digest] at generated
          obtain ⟨nodup, present⟩ := ih _ generated
          refine ⟨fun start_nodup => nodup (GoMap.nodup_keys_insert _ _ _ start_nodup), fun h => ?_⟩
          rw [present, GoMap.get?_insert]
          by_cases same : hashAlgo = h
          · subst same; simp
          · simp [same, Ne.symm same]

theorem generateDigestMap_eq_ok (event : Content) (hashAlgos : List Hash) (m : GoMap Hash Bytes)
    (generated : generateDigestMap hashAlgos event = .ok m) :
    m.keys.Nodup ∧ ∀ h, (m.get? h).isSome ↔ h ∈ hashAlgos := by
  obtain ⟨nodup, present⟩ := generateDigestMapFrom_eq_ok event [] m hashAlgos generated
  exact ⟨nodup List.nodup_nil, fun h => by simpa using present h⟩

theorem generateDigestMapFrom_mem (event : Content) (start m : GoMap Hash Bytes)
    (hashAlgos : List Hash) (generated : generateDigestMapFrom event start hashAlgos = .ok m)
    (h : Hash) (d : Bytes) (mem : (h, d) ∈ m) :
    (h, d) ∈ start ∨ (h ∈ hashAlgos ∧ event.generateDigest h = .ok d) := by
  induction hashAlgos generalizing start with
  | nil =>
      simp only [generateDigestMapFrom, Except.ok.injEq] at generated
      subst generated
      exact .inl mem
  | cons hashAlgo rest ih =>
      simp only [generateDigestMapFrom] at generated
      cases digest : event.generateDigest hashAlgo with
      | error => simp [digest] at generated
      | ok digested =>
          simp only [digest] at generated
          rcases ih _ generated with old | ⟨later, digestOk⟩
          · rcases GoMap.mem_insert _ _ _ _ _ old with old | ⟨rfl, rfl⟩
            · exact .inl old
            · exact .inr ⟨List.mem_cons_self _ _, digest⟩
          · exact .inr ⟨List.mem_cons_of_mem _ later, digestOk⟩

theorem generateDigestMap_mem (event : Content) (hashAlgos : List Hash) (m : GoMap Hash Bytes)
    (generated : generateDigestMap hashAlgos event = .ok m) (h : Hash) (d : Bytes)
    (mem : (h, d) ∈ m) : h ∈ hashAlgos ∧ event.generateDigest h = .ok d := by
  rcases generateDigestMapFrom_mem event [] m hashAlgos generated h d mem with absurd | entry
  · simp at absurd
  · exact entry

/-- The record `AppendEvent` adds. -/
def appendedRecord (c : EventLog) (mrIndex : Int) (digestMap : GoMap Hash Bytes) (eventTlv : TLV) :
    Record :=
  { recNum := UInt64.ofNat c.recs.length, index := UInt8.ofNat mrIndex.toNat,
    digests := digestMap, content := eventTlv, indexType := c.type }

theorem appendEvent_eq_success (c c' : EventLog) (event : Content) (bankAlgos : List Hash)
    (mrIndex : Int) (extender : MRExtender σ) (order : RangeOrder Hash Bytes) (rot rot' : σ) :
    c.appendEvent event bankAlgos mrIndex extender order rot = (c', rot', none) ↔
      bankAlgos ≠ [] ∧ 0 ≤ mrIndex ∧ supportedMRType c.type = none ∧
      ∃ digestMap eventTlv, generateDigestMap bankAlgos event = .ok digestMap ∧
        extendDigests extender mrIndex (order.visit digestMap) rot = (rot', none) ∧
        event.getTLV = .ok eventTlv ∧
        c' = { c with recs := c.recs ++ [appendedRecord c mrIndex digestMap eventTlv] } := by
  unfold EventLog.appendEvent
  by_cases refused : bankAlgos = [] ∨ mrIndex < 0
  · rw [if_pos refused]
    simp only [Prod.mk.injEq, reduceCtorEq, and_false, false_iff, not_and, not_exists]
    intro nonempty nonneg
    rcases refused with empty | negative
    · exact absurd empty nonempty
    · omega
  rw [if_neg refused]
  have checks : bankAlgos ≠ [] ∧ 0 ≤ mrIndex := by
    rw [not_or, not_lt] at refused; exact refused
  simp only [checks, true_and, ne_eq, not_false_eq_true]
  cases supportedMRType c.type with
  | some err => simp
  | none =>
      cases generated : generateDigestMap bankAlgos event with
      | error err => simp
      | ok digestMap =>
          rcases loop : extendDigests extender mrIndex (order.visit digestMap) rot with
            ⟨extended, _ | err⟩
          · cases tlv : event.getTLV with
            | error err => simp [loop]
            | ok eventTlv =>
                simp only [loop, Prod.mk.injEq, and_true, Except.ok.injEq, exists_and_left,
                  exists_eq_left', true_and]
                constructor
                · rintro ⟨rfl, rfl⟩; exact ⟨rfl, rfl⟩
                · rintro ⟨rfl, rfl⟩; exact ⟨rfl, rfl⟩
          · simp [loop]

theorem zeroBank_get? (hash : Hash) (numIdxs : Nat) (i : Int) :
    (zeroBank hash numIdxs).get? i = if 0 ≤ i ∧ i < numIdxs then some (zeros hash.size) else none := by
  have lookup : ∀ idxs : List Nat,
      GoMap.get? (idxs.map fun (idx : Nat) => ((idx : Int), zeros hash.size)) i =
        if ∃ idx ∈ idxs, (idx : Int) = i then some (zeros hash.size) else none := by
    intro idxs
    induction idxs with
    | nil => simp
    | cons idx rest ih =>
        by_cases hit : (idx : Int) = i <;> simp [hit, ih]
  have inRange : (∃ idx ∈ List.range numIdxs, (idx : Int) = i) ↔ 0 ≤ i ∧ i < numIdxs := by
    simp only [List.mem_range]
    constructor
    · rintro ⟨idx, below, rfl⟩; omega
    · rintro ⟨nonneg, below⟩; exact ⟨i.toNat, by omega, by omega⟩
  simp only [zeroBank, lookup, inRange]

theorem createFakeRot_digestAt (hashes : List Hash) (numIdxs : Int) (rot : FakeROT)
    (created : createFakeRot hashes numIdxs = .ok rot) (h : Hash) (i : Int) :
    rot.digestAt h i = if h ∈ hashes ∧ 0 ≤ i ∧ i < numIdxs then some (zeros h.size) else none := by
  unfold createFakeRot at created
  split at created
  · simp at created
  simp only [Except.ok.injEq] at created
  subst created
  have toNatBound : (0 ≤ i ∧ i < numIdxs.toNat) ↔ (0 ≤ i ∧ i < numIdxs) := by omega
  by_cases named : h ∈ hashes
  · simp only [FakeROT.digestAt, GoMap.get?_foldl_insert, named, true_and, if_true, Option.some_bind,
      zeroBank_get?, toNatBound]
  · simp [FakeROT.digestAt, GoMap.get?_foldl_insert, named]

theorem digestAt_extendDigests (H : Hasher) (mrIndex : Int) (entries : GoMap Hash Bytes)
    (rot rot' : FakeROT) (nodup : entries.keys.Nodup)
    (extended : extendDigests (fakeRotExtender H) mrIndex entries rot = (rot', none))
    (h : Hash) (i : Int) :
    rot'.digestAt h i =
      if i = mrIndex then
        (entries.get? h).elim (rot.digestAt h i) fun d => (rot.digestAt h i).map fun old => H.sum h (old ++ d)
      else rot.digestAt h i := by
  induction entries generalizing rot with
  | nil =>
      simp only [extendDigests, Prod.mk.injEq] at extended
      rw [← extended.1]
      split <;> rfl
  | cons entry rest ih =>
      obtain ⟨bank, dgst⟩ := entry
      simp only [GoMap.keys_cons, List.nodup_cons] at nodup
      simp only [extendDigests, fakeRotExtender] at extended
      cases ext : rot.extendMR H ⟨mrIndex, dgst, bank⟩ with
      | error e => simp [ext] at extended
      | ok rot1 =>
          simp only [ext] at extended
          rw [ih rot1 nodup.2 extended]
          obtain ⟨-, old, found, extendedRot⟩ := (FakeROT.extendMR_eq_ok H rot rot1 _).mp ext
          have frame := FakeROT.digestAt_extendMR H rot rot1 _ old found extendedRot
          have stored := ((FakeROT.digest_eq_ok rot _ old).mp found).1
          have absent : GoMap.get? rest bank = none := by
            rw [← Option.not_isSome_iff_eq_none, GoMap.get?_isSome_iff]; exact nodup.1
          simp only at frame stored
          by_cases sameHash : h = bank
          · subst sameHash
            by_cases sameIndex : i = mrIndex
            · subst sameIndex; simp [frame, stored, absent]
            · simp [frame, sameIndex]
          · simp [frame, sameHash, Ne.symm sameHash]

/-- The `h` digests of the records measured into the register with index `i`. -/
def indexDigestsAt (h : Hash) (recs : List Record) (i : Int) : List Bytes :=
  (recs.filter fun r => (r.index.toNat : Int) = i).filterMap fun r => r.digests.get? h

/-- The fake root of trust agrees with the log: every register holds the extend chain of the
log's digests for its index. -/
def RotMatchesLog (H : Hasher) (rot : FakeROT) (c : EventLog) : Prop :=
  ∀ h i d, rot.digestAt h i = some d → d = chainDigest H h (indexDigestsAt h c.recs i)

theorem rotMatchesLog_create (H : Hasher) (hashes : List Hash) (numIdxs : Int) (rot : FakeROT)
    (created : createFakeRot hashes numIdxs = .ok rot) (c : EventLog) (empty : c.recs = []) :
    RotMatchesLog H rot c := by
  intro h i d stored
  rw [createFakeRot_digestAt hashes numIdxs rot created] at stored
  split at stored
  · simp only [Option.some.injEq] at stored
    simp [← stored, indexDigestsAt, empty]
  · simp at stored

@[simp] theorem appendedRecord_digests (c : EventLog) (mrIndex : Int)
    (digestMap : GoMap Hash Bytes) (eventTlv : TLV) :
    (appendedRecord c mrIndex digestMap eventTlv).digests = digestMap := rfl

theorem appendedRecord_index (c : EventLog) (mrIndex : Int) (digestMap : GoMap Hash Bytes)
    (eventTlv : TLV) (nonneg : 0 ≤ mrIndex) (below : mrIndex < 256) :
    ((appendedRecord c mrIndex digestMap eventTlv).index.toNat : Int) = mrIndex := by
  simp only [appendedRecord]
  rw [UInt8.toNat_ofNat_of_lt (by simp [UInt8.size]; omega)]
  omega

theorem rotMatchesLog_appendEvent (H : Hasher) (c c' : EventLog) (rot rot' : FakeROT)
    (event : Content) (bankAlgos : List Hash) (mrIndex : Int) (order : RangeOrder Hash Bytes)
    (below : mrIndex < 256) (matched : RotMatchesLog H rot c)
    (appended : c.appendEvent event bankAlgos mrIndex (fakeRotExtender H) order rot = (c', rot', none)) :
    RotMatchesLog H rot' c' := by
  obtain ⟨-, nonneg, -, digestMap, eventTlv, generated, extended, -, rfl⟩ :=
    (appendEvent_eq_success c c' event bankAlgos mrIndex _ order rot rot').mp appended
  have nodup := (generateDigestMap_eq_ok event bankAlgos digestMap generated).1
  have recIndex := appendedRecord_index c mrIndex digestMap eventTlv nonneg below
  intro h i d stored
  rw [digestAt_extendDigests H mrIndex _ rot rot' (order.nodup_keys_visit _ nodup) extended,
    order.get?_visit _ nodup] at stored
  have grown : indexDigestsAt h (c.recs ++ [appendedRecord c mrIndex digestMap eventTlv]) i =
      indexDigestsAt h c.recs i ++ if mrIndex = i then (digestMap.get? h).toList else [] := by
    by_cases same : mrIndex = i
    · subst same
      cases found : digestMap.get? h <;>
        simp [indexDigestsAt, List.filter_append, recIndex, found]
    · simp [indexDigestsAt, List.filter_append, recIndex, same]
  rw [grown]
  by_cases same : i = mrIndex
  · subst same
    cases found : digestMap.get? h with
    | none =>
        simp only [found, Option.elim, if_true] at stored
        simpa using matched h _ d stored
    | some dd =>
        simp only [found, Option.elim, if_true, Option.map_eq_some'] at stored
        obtain ⟨old, oldStored, rfl⟩ := stored
        rw [matched h _ old oldStored]
        simp [chainDigest_append_singleton]
  · simp only [same, if_false] at stored
    simpa [Ne.symm same] using matched h i d stored

/-- One call of `AppendEvent`. -/
structure AppendCall where
  event : Content
  bankAlgos : List Hash
  mrIndex : Int

/-- Calls of `AppendEvent` in turn through one extender, while each returns nil; the loop of
call `i` visits its digest map in `orders i`. -/
def appendRun (extender : MRExtender σ) (orders : Nat → RangeOrder Hash Bytes) :
    List AppendCall → EventLog → σ → Option (EventLog × σ)
  | [], c, rot => some (c, rot)
  | call :: rest, c, rot =>
      match c.appendEvent call.event call.bankAlgos call.mrIndex extender (orders 0) rot with
      | (c', rot', none) => appendRun extender (fun i => orders (i + 1)) rest c' rot'
      | (_, _, some _) => none

theorem appendRun_invariant (extender : MRExtender σ) (P : EventLog → σ → Prop)
    (calls : List AppendCall)
    (step : ∀ call ∈ calls, ∀ order c c' rot rot', P c rot →
      c.appendEvent call.event call.bankAlgos call.mrIndex extender order rot = (c', rot', none) →
        P c' rot')
    (orders : Nat → RangeOrder Hash Bytes) (c c' : EventLog) (rot rot' : σ) (init : P c rot)
    (ran : appendRun extender orders calls c rot = some (c', rot')) : P c' rot' := by
  induction calls generalizing orders c rot with
  | nil =>
      simp only [appendRun, Option.some.injEq, Prod.mk.injEq] at ran
      obtain ⟨rfl, rfl⟩ := ran
      exact init
  | cons call rest ih =>
      simp only [appendRun] at ran
      rcases appended : c.appendEvent call.event call.bankAlgos call.mrIndex extender (orders 0) rot
        with ⟨c1, rot1, _ | err⟩
      · simp only [appended] at ran
        exact ih (fun call' mem => step call' (List.mem_cons_of_mem _ mem)) _ c1 rot1
          (step call (List.mem_cons_self _ _) _ _ _ _ _ init appended) ran
      · simp [appended] at ran

theorem rotMatchesLog_appendRun (H : Hasher) (calls : List AppendCall)
    (below : ∀ call ∈ calls, call.mrIndex < 256) (orders : Nat → RangeOrder Hash Bytes)
    (c c' : EventLog) (rot rot' : FakeROT) (matched : RotMatchesLog H rot c)
    (ran : appendRun (fakeRotExtender H) orders calls c rot = some (c', rot')) :
    RotMatchesLog H rot' c' :=
  appendRun_invariant (fakeRotExtender H) (fun c rot => RotMatchesLog H rot c) calls
    (fun call mem order c c' rot rot' =>
      rotMatchesLog_appendEvent H c c' rot rot' _ _ _ order (below call mem))
    orders c c' rot rot' matched ran

theorem digestAt_isSome_appendEvent (H : Hasher) (c c' : EventLog) (rot rot' : FakeROT)
    (event : Content) (bankAlgos : List Hash) (mrIndex : Int) (order : RangeOrder Hash Bytes)
    (appended : c.appendEvent event bankAlgos mrIndex (fakeRotExtender H) order rot = (c', rot', none))
    (h : Hash) (i : Int) : (rot'.digestAt h i).isSome = (rot.digestAt h i).isSome := by
  obtain ⟨-, -, -, digestMap, -, generated, extended, -, -⟩ :=
    (appendEvent_eq_success c c' event bankAlgos mrIndex _ order rot rot').mp appended
  rw [digestAt_extendDigests H mrIndex _ rot rot'
    (order.nodup_keys_visit _ (generateDigestMap_eq_ok event bankAlgos digestMap generated).1) extended]
  split
  · cases (order.visit digestMap).get? h <;> simp
  · rfl

/-- Every record of the log carries an `h` digest and an index of the selection. -/
def CoveredBy (h : Hash) (mrSelection : List Int) (c : EventLog) : Prop :=
  ∀ r ∈ c.recs, (r.digests.get? h).isSome ∧ (r.index.toNat : Int) ∈ mrSelection

theorem coveredBy_appendEvent (h : Hash) (mrSelection : List Int) (c c' : EventLog)
    (rot rot' : σ) (extender : MRExtender σ) (order : RangeOrder Hash Bytes) (event : Content)
    (bankAlgos : List Hash) (mrIndex : Int) (hashed : h ∈ bankAlgos) (selected : mrIndex ∈ mrSelection)
    (below : mrIndex < 256) (covered : CoveredBy h mrSelection c)
    (appended : c.appendEvent event bankAlgos mrIndex extender order rot = (c', rot', none)) :
    CoveredBy h mrSelection c' := by
  obtain ⟨-, nonneg, -, digestMap, eventTlv, generated, -, -, rfl⟩ :=
    (appendEvent_eq_success c c' event bankAlgos mrIndex _ order rot rot').mp appended
  intro r mem
  rcases List.mem_append.mp mem with old | new
  · exact covered r old
  · rw [List.mem_singleton.mp new, appendedRecord_index c mrIndex digestMap eventTlv nonneg below]
    exact ⟨(generateDigestMap_eq_ok event bankAlgos digestMap generated).2 h |>.mpr hashed, selected⟩

theorem indexDigestsAt_toNat (h : Hash) (recs : List Record) (i : UInt8) :
    indexDigestsAt h recs i.toNat = indexDigests h recs i := by
  simp only [indexDigestsAt, indexDigests, Int.ofNat_inj, ← UInt8.ext_iff]

/-- Appending through a fresh fake root of trust at indices below 256, with `h` among every
call's banks, the log replays against the registers the root of trust then reports. -/
theorem replay_readMRs_appendRun (H : Hasher) (hashes : List Hash) (numIdxs : Int) (rot rot' : FakeROT)
    (created : createFakeRot hashes numIdxs = .ok rot) (c c' : EventLog) (fresh : c.recs = [])
    (calls : List AppendCall) (orders : Nat → RangeOrder Hash Bytes)
    (ran : appendRun (fakeRotExtender H) orders calls c rot = some (c', rot'))
    (below : ∀ call ∈ calls, call.mrIndex < 256) (h : Hash) (named : h ∈ hashes)
    (everyBank : ∀ call ∈ calls, h ∈ call.bankAlgos) (mrSelection : List Int)
    (inRange : ∀ i ∈ mrSelection, 0 ≤ i ∧ i < numIdxs)
    (selected : ∀ call ∈ calls, call.mrIndex ∈ mrSelection) :
    ∃ bank, rot'.readMRs h mrSelection = .ok bank ∧ c'.replay H bank.toMRBank = none := by
  have matched := rotMatchesLog_appendRun H calls below orders c c' rot rot'
    (rotMatchesLog_create H hashes numIdxs rot created c fresh) ran
  have registers : ∀ i, (rot'.digestAt h i).isSome = (rot.digestAt h i).isSome :=
    appendRun_invariant (fakeRotExtender H) (fun _ rot'' => ∀ i, (rot''.digestAt h i).isSome = (rot.digestAt h i).isSome)
      calls (fun _ _ order c c' rot rot' same appended i => by
        rw [digestAt_isSome_appendEvent H c c' rot rot' _ _ _ order appended, same])
      orders c c' rot rot' (fun _ => rfl) ran
  have covered : CoveredBy h mrSelection c' :=
    appendRun_invariant (fakeRotExtender H) (fun c _ => CoveredBy h mrSelection c) calls
      (fun call mem order c c' rot rot' => coveredBy_appendEvent h mrSelection c c' rot rot' _ order _ _
        _ (everyBank call mem) (selected call mem) (below call mem))
      orders c c' rot rot' (by simp [CoveredBy, fresh]) ran
  have present : ∀ i ∈ mrSelection, (rot'.digestAt h i).isSome := fun i mem => by
    rw [registers, createFakeRot_digestAt hashes numIdxs rot created, if_pos ⟨named, inRange i mem⟩]
    rfl
  have bankExists : ∃ bank, rot'.fakeMRBanks.get? h = some bank := by
    have zeroPresent : (rot'.digestAt h 0).isSome := by
      rw [registers, createFakeRot_digestAt hashes numIdxs rot created]
      have positive : 0 < numIdxs := by
        unfold createFakeRot at created; split at created
        · simp at created
        · omega
      simp [named, positive]
    unfold FakeROT.digestAt at zeroPresent
    cases found : rot'.fakeMRBanks.get? h <;> simp_all
  obtain ⟨bank, found⟩ := bankExists
  have inBank : ∀ i, rot'.digestAt h i = bank.get? i := fun i => by
    simp [FakeROT.digestAt, found]
  refine ⟨_, FakeROT.readMRs_eq_ok rot' h bank mrSelection found
    (fun i mem => inBank i ▸ present i mem), ?_⟩
  rw [replay_none_iff_chains H c' _ h rfl]
  refine ⟨fun r mem => (covered r mem).1, fun r mem => ?_⟩
  obtain ⟨d, stored⟩ := Option.isSome_iff_exists.mp (present _ (covered r mem).2)
  simp only [FakeMRBank.toMRBank, List.map_map, Function.comp_def]
  rw [lastDigest_map, if_pos (covered r mem).2, ← inBank, stored, Option.getD_some,
    matched h _ d stored, indexDigestsAt_toNat]

theorem replay_readMRs_after_one_append :
    ∃ rot rot' c', createFakeRot [.sha256] 1 = .ok rot ∧
      appendRun (fakeRotExtender Hasher.tagged) (fun _ => .inserted)
        [⟨FakeTlv.toContent Hasher.tagged ⟨1, [1]⟩, [.sha256], 0⟩] newPCR rot = some (c', rot') ∧
      ∃ bank, rot'.readMRs .sha256 [0] = .ok bank ∧ c'.replay Hasher.tagged bank.toMRBank = none :=
  ⟨_, _, _, rfl, rfl, replay_readMRs_appendRun Hasher.tagged [.sha256] 1 _ _ rfl newPCR _ rfl
    [⟨FakeTlv.toContent Hasher.tagged ⟨1, [1]⟩, [.sha256], 0⟩] (fun _ => .inserted) rfl (by simp) .sha256 (by simp)
    (by simp) [0] (by simp) (by simp)⟩

theorem replay_ne_none_of_missing (H : Hasher) (c : EventLog) (regs : MRBank) (h : Hash)
    (hashOf : regs.cryptoHash = .ok h) (r : Record) (mem : r ∈ c.recs)
    (missing : lastDigest regs.mrs r.index.toNat = none) : c.replay H regs ≠ none := by
  intro replayed
  have chained := ((replay_none_iff_chains H c regs h hashOf).mp replayed).2 r mem
  rw [missing] at chained
  exact absurd chained (by simp)

/-- `AppendEvent` extends register 256 but records index `uint8(256) = 0`: the log then no
longer replays against the register it extended. -/
theorem appendEvent_index_256_breaks_replay (H : Hasher) (order : RangeOrder Hash Bytes) :
    ∃ rot rot' c bank, createFakeRot [.sha256] 257 = .ok rot ∧
      newPCR.appendEvent (FakeTlv.toContent H ⟨1, [1]⟩) [.sha256] 256 (fakeRotExtender H) order rot =
        (c, rot', none) ∧
      rot'.readMRs .sha256 [256] = .ok bank ∧ c.replay H bank.toMRBank ≠ none := by
  obtain ⟨rot, created⟩ : ∃ rot, createFakeRot [.sha256] 257 = .ok rot := ⟨_, rfl⟩
  have zero : rot.digestAt .sha256 256 = some (zeros 32) := by
    rw [createFakeRot_digestAt _ _ rot created]; rfl
  let digest := H.sum .sha256 (FakeTlv.tlv ⟨1, [1]⟩).marshalBinary
  obtain ⟨rot', extended⟩ : ∃ rot', rot.extendMR H ⟨256, digest, .sha256⟩ = .ok rot' :=
    ⟨_, (FakeROT.extendMR_eq_ok H rot _ _).mpr
      ⟨H.sum_length _ _, _, (FakeROT.digest_eq_ok _ _ _).mpr ⟨zero, rfl⟩, rfl⟩⟩
  have registered : (rot'.digestAt .sha256 256).isSome := by
    obtain ⟨-, old, found, rfl⟩ := (FakeROT.extendMR_eq_ok H rot _ _).mp extended
    rw [FakeROT.digestAt_extendMR H rot _ _ old found rfl]; rfl
  obtain ⟨bank, found, -⟩ := Option.bind_eq_some.mp (Option.get_mem registered)
  have visited : order.visit [(.sha256, digest)] = [(.sha256, digest)] :=
    List.perm_singleton.1 (order.perm _)
  refine ⟨rot, rot', _, _, created,
    (appendEvent_eq_success _ _ _ _ _ _ _ _ _).mpr ⟨by simp, by decide, rfl, [(.sha256, digest)], _,
      rfl, by rw [visited]; simp [extendDigests, fakeRotExtender, extended], rfl, rfl⟩,
    FakeROT.readMRs_eq_ok rot' .sha256 bank [256] found ?_, ?_⟩
  · simpa [FakeROT.digestAt, found] using registered
  · exact replay_ne_none_of_missing H _ _ .sha256 rfl _ (List.mem_singleton_self _) rfl

end MeasuredBoot
