import MeasuredBoot.Cel.Core

/-!
What `eventLog.Replay` decides. Each register the log touches must be in the bank and hold the
extend chain of the log's digests for it, starting from zero bytes; registers of the bank that no
record touches are not looked at.
-/

namespace MeasuredBoot

/-- The extend chain of a register: from zero bytes, each digest in turn. -/
def chainDigest (H : Hasher) (h : Hash) (digests : List Bytes) : Bytes :=
  digests.foldl (fun acc d => H.sum h (acc ++ d)) (zeros h.size)

/-- The `h` digests of the records measured into register `i`, in log order. -/
def indexDigests (h : Hash) (recs : List Record) (i : UInt8) : List Bytes :=
  (recs.filter fun r => r.index = i).filterMap fun r => r.digests.get? h

/-- The digest of the bank's last register with index `i`. -/
def lastDigest (mrs : List MR) (i : Int) : Option Bytes :=
  ((mrs.filter fun r => r.idx = i).getLast?).map MR.dgst

@[simp] theorem chainDigest_nil (H : Hasher) (h : Hash) : chainDigest H h [] = zeros h.size := rfl

theorem chainDigest_append_singleton (H : Hasher) (h : Hash) (digests : List Bytes) (d : Bytes) :
    chainDigest H h (digests ++ [d]) = H.sum h (chainDigest H h digests ++ d) := by
  simp [chainDigest]

/-- One accumulator step of the extend loop, on the accumulator of the record's register. -/
def replayStep (H : Hasher) (h : Hash) (acc : Option Bytes) (r : Record) : Option Bytes :=
  some (H.sum h (acc.getD (zeros h.size) ++ (r.digests.get? h).getD []))

theorem replayRecords_eq_ok_iff (H : Hasher) (h : Hash) (replayed : GoMap UInt8 Bytes)
    (recs : List Record) :
    (∃ m, replayRecords H h replayed recs = .ok m) ↔ ∀ r ∈ recs, (r.digests.get? h).isSome := by
  induction recs generalizing replayed with
  | nil => simp [replayRecords]
  | cons record rest ih =>
      simp only [replayRecords, List.mem_cons, forall_eq_or_imp]
      cases record.digests.get? h with
      | none => simp
      | some digest => simp [ih]

theorem replayRecords_get? (H : Hasher) (h : Hash) (replayed m : GoMap UInt8 Bytes)
    (recs : List Record) (replayedOk : replayRecords H h replayed recs = .ok m) (i : UInt8) :
    m.get? i = (recs.filter fun r => r.index = i).foldl (replayStep H h) (replayed.get? i) := by
  induction recs generalizing replayed with
  | nil =>
      simp only [replayRecords, Except.ok.injEq] at replayedOk
      subst replayedOk; rfl
  | cons record rest ih =>
      simp only [replayRecords] at replayedOk
      cases found : record.digests.get? h with
      | none => simp [found] at replayedOk
      | some digest =>
          simp only [found] at replayedOk
          rw [ih _ replayedOk, List.filter_cons]
          by_cases same : record.index = i
          · subst same
            cases old : replayed.get? record.index <;> simp [old, replayStep, found]
          · split <;> simp [same]

theorem nodup_keys_replayRecords (H : Hasher) (h : Hash) (replayed m : GoMap UInt8 Bytes)
    (recs : List Record) (nodup : replayed.keys.Nodup)
    (replayedOk : replayRecords H h replayed recs = .ok m) : m.keys.Nodup := by
  induction recs generalizing replayed with
  | nil => simp only [replayRecords, Except.ok.injEq] at replayedOk; exact replayedOk ▸ nodup
  | cons record rest ih =>
      simp only [replayRecords] at replayedOk
      cases found : record.digests.get? h with
      | none => simp [found] at replayedOk
      | some digest =>
          rw [found] at replayedOk
          refine ih _ (GoMap.nodup_keys_insert _ _ _ ?_) replayedOk
          split
          · exact nodup
          · exact GoMap.nodup_keys_insert _ _ _ nodup

theorem foldl_replayStep_some (H : Hasher) (h : Hash) (recs : List Record) (acc : Bytes)
    (present : ∀ r ∈ recs, (r.digests.get? h).isSome) :
    recs.foldl (replayStep H h) (some acc) =
      some ((recs.filterMap fun r => r.digests.get? h).foldl (fun acc d => H.sum h (acc ++ d)) acc) := by
  induction recs generalizing acc with
  | nil => rfl
  | cons record rest ih =>
      obtain ⟨digest, found⟩ := Option.isSome_iff_exists.mp (present record (by simp))
      simp [replayStep, found, ih _ (fun r member => present r (by simp [member]))]

theorem replayRecords_get?_nil (H : Hasher) (h : Hash) (m : GoMap UInt8 Bytes)
    (recs : List Record) (replayedOk : replayRecords H h [] recs = .ok m) (i : UInt8) :
    m.get? i = if ∃ r ∈ recs, r.index = i then some (chainDigest H h (indexDigests h recs i))
      else none := by
  have present := (replayRecords_eq_ok_iff H h [] recs).mp ⟨m, replayedOk⟩
  rw [replayRecords_get? H h [] m recs replayedOk i, GoMap.get?_nil]
  split
  · rename_i touched
    obtain ⟨first, rest, split⟩ : ∃ first rest, recs.filter (fun r => r.index = i) = first :: rest := by
      obtain ⟨r, member, same⟩ := touched
      cases filtered : recs.filter (fun r => r.index = i) with
      | nil =>
          have : r ∈ recs.filter (fun r => r.index = i) := List.mem_filter.mpr ⟨member, by simpa⟩
          simp [filtered] at this
      | cons first rest => exact ⟨first, rest, rfl⟩
    have filteredPresent : ∀ r ∈ first :: rest, (r.digests.get? h).isSome := fun r member =>
      present r (List.mem_of_mem_filter (split ▸ member))
    obtain ⟨digest, found⟩ := Option.isSome_iff_exists.mp (filteredPresent first (by simp))
    have firstStep : replayStep H h none first = some (H.sum h (zeros h.size ++ digest)) := by
      simp [replayStep, found]
    rw [split, indexDigests, split, List.foldl_cons, firstStep,
      foldl_replayStep_some H h rest _ (fun r member => filteredPresent r (by simp [member]))]
    simp [found, chainDigest]
  · rename_i untouched
    have : recs.filter (fun r => r.index = i) = [] := by
      rw [List.filter_eq_nil_iff]
      intro r member same
      exact untouched ⟨r, member, by simpa using same⟩
    simp [this]

theorem compareReplayed_eq_ok_nil_iff (registers : GoMap Int Bytes) (m : GoMap UInt8 Bytes) :
    compareReplayed registers m = .ok [] ↔ ∀ e ∈ m, registers.get? e.1.toNat = some e.2 := by
  induction m with
  | nil => simp [compareReplayed]
  | cons entry rest ih =>
      obtain ⟨replayReg, replayDigest⟩ := entry
      simp only [compareReplayed, List.mem_cons, forall_eq_or_imp]
      cases registers.get? replayReg.toNat with
      | none => simp
      | some bankDigest =>
          simp only [bind_eq_ok, pure, Except.pure, Except.ok.injEq, Option.some.injEq]
          constructor
          · rintro ⟨failed, compared, empty⟩
            split at empty
            · subst empty; exact ⟨by assumption, ih.mp compared⟩
            · simp at empty
          · rintro ⟨rfl, rest⟩
            exact ⟨[], ih.mpr rest, by simp⟩

theorem lastDigest_cons (r : MR) (rest : List MR) (i : Int) :
    lastDigest (r :: rest) i = (lastDigest rest i).or (if r.idx = i then some r.dgst else none) := by
  by_cases same : r.idx = i
  · simp only [lastDigest, List.filter_cons, same, decide_True, if_true, List.getLast?_cons]
    cases (rest.filter fun r => r.idx = i).getLast? <;> simp
  · simp [lastDigest, List.filter_cons, same]

theorem lastDigest_map (mrSelection : List Int) (value : Int → Bytes) (i : Int) :
    lastDigest (mrSelection.map fun j => ⟨j, value j⟩) i =
      if i ∈ mrSelection then some (value i) else none := by
  induction mrSelection with
  | nil => simp [lastDigest]
  | cons j rest ih =>
      rw [List.map_cons, lastDigest_cons, ih]
      by_cases same : j = i
      · subst same; by_cases later : j ∈ rest <;> simp [later]
      · simp [same, Ne.symm same]

theorem bankRegisters_get? (mrs : List MR) (i : Int) :
    (bankRegisters mrs).get? i = lastDigest mrs i := by
  suffices general : ∀ (start : GoMap Int Bytes),
      (mrs.foldl (fun registers r => registers.insert r.idx r.dgst) start).get? i =
        (lastDigest mrs i).or (start.get? i) by
    simpa using general []
  induction mrs with
  | nil => simp [lastDigest]
  | cons r rest ih =>
      intro start
      rw [List.foldl_cons, ih, lastDigest_cons, GoMap.get?_insert]
      cases lastDigest rest i <;> by_cases same : r.idx = i <;> simp [same]

theorem replay_none_iff_chains (H : Hasher) (c : EventLog) (regs : MRBank) (h : Hash)
    (hashOf : regs.cryptoHash = .ok h) :
    c.replay H regs = none ↔
      (∀ r ∈ c.recs, (r.digests.get? h).isSome) ∧
      ∀ r ∈ c.recs,
        lastDigest regs.mrs r.index.toNat = some (chainDigest H h (indexDigests h c.recs r.index)) := by
  unfold EventLog.replay
  rw [hashOf]
  dsimp only
  cases replayedOk : replayRecords H h [] c.recs with
  | error err =>
      have missing : ¬ ∀ r ∈ c.recs, (r.digests.get? h).isSome := by
        rw [← replayRecords_eq_ok_iff H h []]; simp [replayedOk]
      simp [missing]
  | ok m =>
      have present := (replayRecords_eq_ok_iff H h [] c.recs).mp ⟨m, replayedOk⟩
      have nodup := nodup_keys_replayRecords H h [] m c.recs List.nodup_nil replayedOk
      have compared : compareReplayed (bankRegisters regs.mrs) m = .ok [] ↔
          ∀ r ∈ c.recs, lastDigest regs.mrs r.index.toNat =
            some (chainDigest H h (indexDigests h c.recs r.index)) := by
        simp only [compareReplayed_eq_ok_nil_iff, bankRegisters_get?]
        constructor
        · intro matched r member
          have stored := replayRecords_get?_nil H h m c.recs replayedOk r.index
          rw [if_pos ⟨r, member, rfl⟩] at stored
          exact matched _ ((GoMap.mem_iff_get? m nodup _ _).mpr stored)
        · rintro matched ⟨i, digest⟩ member
          have stored := (GoMap.mem_iff_get? m nodup _ _).mp member
          rw [replayRecords_get?_nil H h m c.recs replayedOk] at stored
          split at stored
          · rename_i touched
            obtain ⟨r, recMember, rfl⟩ := touched
            simp only [Option.some.injEq] at stored
            rw [← stored]
            exact matched r recMember
          · simp at stored
      rw [← compared]
      simp only [present, implies_true, true_and]
      cases compareReplayed (bankRegisters regs.mrs) m with
      | error => simp
      | ok failed =>
          cases failed with
          | nil => simpa using present
          | cons => simp

/-- **Replay.** On a bank with hash algorithm `h`, `Replay` succeeds exactly when every record
has an `h` digest and, for each register a record touches, the bank's last register with that
index holds the extend chain of the log's `h` digests for it. -/
theorem replay_eq_none_iff (H : Hasher) (c : EventLog) (regs : MRBank) (h : Hash)
    (hashOf : regs.cryptoHash = .ok h) :
    c.replay H regs = none ↔
      (∀ r ∈ c.recs, (r.digests.get? h).isSome) ∧
      ∀ r ∈ c.recs,
        lastDigest regs.mrs r.index.toNat = some (chainDigest H h (indexDigests h c.recs r.index)) :=
  replay_none_iff_chains H c regs h hashOf

/-- A log of one SHA-256 record on register 3. -/
def measuredAtThree : EventLog := ⟨[⟨0, 3, pcrType, [(.sha256, zeros 32)], ⟨0, []⟩⟩], pcrType⟩

/-- The log replays against the bank whose register 3 holds its extend chain, and not against
the bank whose register 3 still holds zeros. -/
theorem replay_measuredAtThree :
    (⟨.ok .sha256, [⟨3, Hasher.tagged.sum .sha256 (zeros 32 ++ zeros 32)⟩]⟩ : MRBank).cryptoHash =
        .ok .sha256 ∧
      measuredAtThree.replay Hasher.tagged
        ⟨.ok .sha256, [⟨3, Hasher.tagged.sum .sha256 (zeros 32 ++ zeros 32)⟩]⟩ = none ∧
      measuredAtThree.replay Hasher.tagged ⟨.ok .sha256, [⟨3, zeros 32⟩]⟩ ≠ none :=
  ⟨rfl, (replay_eq_none_iff Hasher.tagged measuredAtThree _ .sha256 rfl).2
      ⟨by decide, by simp only [measuredAtThree, List.forall_mem_singleton]; rfl⟩,
    mt (replay_eq_none_iff Hasher.tagged measuredAtThree _ .sha256 rfl).1 fun ⟨_, chained⟩ =>
      absurd (chained _ (List.mem_singleton_self _)) (by decide)⟩

/-! ### Registers are independent -/

/-- **Replay does not depend on how registers interleave.** Two logs with the same records on
each register, in the same order there, replay alike against every bank: moving a record past
records of other registers never changes whether `Replay` succeeds. -/
theorem replay_interleaving (H : Hasher) (c c' : EventLog) (regs : MRBank)
    (sameOrder : ∀ i, c.recs.filter (fun r => r.index = i) = c'.recs.filter (fun r => r.index = i)) :
    c.replay H regs = none ↔ c'.replay H regs = none := by
  have mem (r : Record) : r ∈ c.recs ↔ r ∈ c'.recs := by
    have onRegister := congrArg (r ∈ ·) (sameOrder r.index)
    simpa using onRegister
  have chains (h : Hash) (i : UInt8) : indexDigests h c.recs i = indexDigests h c'.recs i := by
    rw [indexDigests, indexDigests, sameOrder]
  cases hashOf : regs.cryptoHash with
  | error err => simp [EventLog.replay, hashOf]
  | ok h =>
      rw [replay_none_iff_chains H c regs h hashOf, replay_none_iff_chains H c' regs h hashOf]
      simp only [mem, chains]

/-- A log with one record on register 0 and then one on register 1. -/
def twoRegisterLog : EventLog :=
  ⟨[⟨0, 0, pcrType, [(.sha1, [1])], ⟨0, []⟩⟩, ⟨1, 1, pcrType, [(.sha1, [2])], ⟨0, []⟩⟩], pcrType⟩

theorem replay_interleaving_reversed :
    (∀ i, twoRegisterLog.recs.filter (fun r => r.index = i) =
      twoRegisterLog.recs.reverse.filter (fun r => r.index = i)) ∧
    (twoRegisterLog.replay Hasher.tagged ⟨.ok .sha1, []⟩ = none ↔
      (⟨twoRegisterLog.recs.reverse, pcrType⟩ : EventLog).replay Hasher.tagged ⟨.ok .sha1, []⟩ = none) := by
  have sameOrder : ∀ i, twoRegisterLog.recs.filter (fun r => r.index = i) =
      twoRegisterLog.recs.reverse.filter (fun r => r.index = i) := by
    intro i
    by_cases zero : (0 : UInt8) = i <;> by_cases one : (1 : UInt8) = i <;>
      simp [twoRegisterLog, List.filter_cons, zero, one]
    exact absurd (zero.trans one.symm) (by decide)
  exact ⟨sameOrder, replay_interleaving Hasher.tagged twoRegisterLog ⟨twoRegisterLog.recs.reverse, pcrType⟩
    ⟨.ok .sha1, []⟩ sameOrder⟩

/-! ### What a successful replay pins down -/

theorem length_chainDigest (H : Hasher) (h : Hash) (digests : List Bytes) :
    (chainDigest H h digests).length = h.size := by
  induction digests using List.reverseRecOn with
  | nil => exact length_zeros _
  | append_singleton digests d _ => rw [chainDigest_append_singleton, H.sum_length]

/-- A message that the extend chain of `digests` hashes: the chain of a prefix followed by the
next digest. -/
def ChainInput (H : Hasher) (h : Hash) (digests : List Bytes) (message : Bytes) : Prop :=
  ∃ pre d post, digests = pre ++ d :: post ∧ message = chainDigest H h pre ++ d

theorem ChainInput.append {H : Hasher} {h : Hash} {digests : List Bytes} {message : Bytes}
    (input : ChainInput H h digests message) (more : List Bytes) :
    ChainInput H h (digests ++ more) message := by
  obtain ⟨pre, d, post, rfl, rfl⟩ := input
  exact ⟨pre, d, post ++ more, by simp, rfl⟩

theorem chainDigest_binds (H : Hasher) (h : Hash) {digests digests' : List Bytes}
    (lengths : digests.length = digests'.length) (same : chainDigest H h digests = chainDigest H h digests') :
    digests = digests' ∨ ∃ x y, x ≠ y ∧ H.sum h x = H.sum h y ∧
      ChainInput H h digests x ∧ ChainInput H h digests' y := by
  induction digests using List.reverseRecOn generalizing digests' with
  | nil => exact .inl (List.length_eq_zero.1 lengths.symm).symm
  | append_singleton digests d ih =>
      obtain ⟨digests', d', rfl⟩ : ∃ pre last, digests' = pre ++ [last] := by
        rcases List.eq_nil_or_concat digests' with empty | ⟨pre, last, split⟩
        · subst empty; simp at lengths
        · exact ⟨pre, last, by rw [split, List.concat_eq_append]⟩
      rw [chainDigest_append_singleton, chainDigest_append_singleton] at same
      by_cases inputs : chainDigest H h digests ++ d = chainDigest H h digests' ++ d'
      · obtain ⟨chains, rfl⟩ := List.append_inj inputs (by rw [length_chainDigest, length_chainDigest])
        rcases ih (by simpa using lengths) chains with rfl | ⟨x, y, differ, collide, input, input'⟩
        · exact .inl rfl
        · exact .inr ⟨x, y, differ, collide, input.append _, input'.append _⟩
      · exact .inr ⟨_, _, inputs, same, ⟨digests, d, [], by simp, rfl⟩, ⟨digests', d', [], by simp, rfl⟩⟩

theorem length_indexDigests (h : Hash) (recs : List Record) (i : UInt8)
    (present : ∀ r ∈ recs, (r.digests.get? h).isSome) :
    (indexDigests h recs i).length = (recs.map Record.index).count i := by
  induction recs with
  | nil => rfl
  | cons r rest ih =>
      obtain ⟨d, found⟩ := Option.isSome_iff_exists.1 (present r (List.mem_cons_self _ _))
      have restCount := ih fun r' mem => present r' (List.mem_cons_of_mem _ mem)
      by_cases same : r.index = i
      · simp [indexDigests, List.filter_cons, List.count_cons, same, found, ← restCount]
      · simp [indexDigests, List.filter_cons, List.count_cons, same, ← restCount]

theorem map_get?_eq_of_indexDigests (h : Hash) (recs recs' : List Record)
    (sameIndices : recs.map Record.index = recs'.map Record.index)
    (present : ∀ r ∈ recs, (r.digests.get? h).isSome) (present' : ∀ r ∈ recs', (r.digests.get? h).isSome)
    (same : ∀ i, indexDigests h recs i = indexDigests h recs' i) :
    recs.map (fun r => r.digests.get? h) = recs'.map (fun r => r.digests.get? h) := by
  induction recs generalizing recs' with
  | nil => rw [List.map_nil, eq_comm, List.map_eq_nil_iff] at sameIndices; simp [sameIndices]
  | cons r rest ih =>
      rcases recs' with _ | ⟨r', rest'⟩
      · simp at sameIndices
      simp only [List.map_cons, List.cons.injEq] at sameIndices ⊢
      obtain ⟨sameIndex, sameIndices⟩ := sameIndices
      obtain ⟨d, found⟩ := Option.isSome_iff_exists.1 (present r (List.mem_cons_self _ _))
      obtain ⟨d', found'⟩ := Option.isSome_iff_exists.1 (present' r' (List.mem_cons_self _ _))
      have here := same r.index
      simp only [indexDigests, List.filter_cons, sameIndex, decide_True, if_true, List.filterMap_cons,
        found, found', List.cons.injEq] at here
      obtain ⟨rfl, sameRest⟩ := here
      refine ⟨by rw [found, found'], ih rest' sameIndices (fun x mem => present x (List.mem_cons_of_mem _ mem))
        (fun x mem => present' x (List.mem_cons_of_mem _ mem)) fun i => ?_⟩
      by_cases touched : r'.index = i
      · subst touched; exact sameRest
      · have elsewhere := same i
        simp only [indexDigests, List.filter_cons, sameIndex, touched, decide_False,
          Bool.false_eq_true, if_false] at elsewhere
        exact elsewhere

/-- **Replay binds the digests.** Two logs that measure into the same registers, record by
record, and both replay against one bank of algorithm `h`, carry the same `h` digest in every
record, unless two different messages that one register's extend chains hash collide under
`h`. So a log whose digests were altered replays only through a collision of the hash. -/
theorem replay_binds_digests (H : Hasher) (h : Hash) (c c' : EventLog) (regs : MRBank)
    (hashOf : regs.cryptoHash = .ok h) (sameIndices : c.recs.map Record.index = c'.recs.map Record.index)
    (replayed : c.replay H regs = none) (replayed' : c'.replay H regs = none) :
    c.recs.map (fun r => r.digests.get? h) = c'.recs.map (fun r => r.digests.get? h) ∨
      ∃ i x y, x ≠ y ∧ H.sum h x = H.sum h y ∧
        ChainInput H h (indexDigests h c.recs i) x ∧ ChainInput H h (indexDigests h c'.recs i) y := by
  obtain ⟨present, chains⟩ := (replay_none_iff_chains H c regs h hashOf).1 replayed
  obtain ⟨present', chains'⟩ := (replay_none_iff_chains H c' regs h hashOf).1 replayed'
  by_cases collision : ∃ i x y, x ≠ y ∧ H.sum h x = H.sum h y ∧
      ChainInput H h (indexDigests h c.recs i) x ∧ ChainInput H h (indexDigests h c'.recs i) y
  · exact .inr collision
  refine .inl (map_get?_eq_of_indexDigests h _ _ sameIndices present present' fun i => ?_)
  by_cases touched : i ∈ c.recs.map Record.index
  · obtain ⟨r, mem, rfl⟩ := List.mem_map.1 touched
    obtain ⟨r', mem', sameIndex⟩ := List.mem_map.1 (sameIndices ▸ touched)
    have there := chains' r' mem'
    rw [sameIndex] at there
    rcases chainDigest_binds H h (by rw [length_indexDigests h _ _ present,
        length_indexDigests h _ _ present', sameIndices])
        (Option.some.inj ((chains r mem).symm.trans there)) with equal | found
    · exact equal
    · exact (collision ⟨_, found⟩).elim
  · have untouched' : i ∉ c'.recs.map Record.index := sameIndices ▸ touched
    simp only [List.mem_map, not_exists, not_and] at touched untouched'
    have none : c.recs.filter (fun r => r.index = i) = [] :=
      List.filter_eq_nil_iff.2 fun r mem => by simpa using touched r mem
    have none' : c'.recs.filter (fun r => r.index = i) = [] :=
      List.filter_eq_nil_iff.2 fun r mem => by simpa using untouched' r mem
    simp only [indexDigests, none, none', List.filterMap_nil]

/-- A log of one record on register 0 whose only digest is the SHA-1 digest `d`. -/
def measuredOnce (d : Bytes) : EventLog := ⟨[⟨0, 0, pcrType, [(.sha1, d)], ⟨0, []⟩⟩], pcrType⟩

/-- A SHA-1 bank whose register 0 holds the extend of `[1, 2]` under the stand-in hash, which
the extend of `[2, 1]` collides with. -/
def collidingBank : MRBank := ⟨.ok .sha1, [⟨0, Hasher.tagged.sum .sha1 (zeros 20 ++ [1, 2])⟩]⟩

theorem replay_binds_digests_swapped :
    collidingBank.cryptoHash = .ok .sha1 ∧
      (measuredOnce [1, 2]).recs.map Record.index = (measuredOnce [2, 1]).recs.map Record.index ∧
      (measuredOnce [1, 2]).replay Hasher.tagged collidingBank = none ∧
      (measuredOnce [2, 1]).replay Hasher.tagged collidingBank = none ∧
      ((measuredOnce [1, 2]).recs.map (fun r => r.digests.get? .sha1) =
          (measuredOnce [2, 1]).recs.map (fun r => r.digests.get? .sha1) ∨
        ∃ i x y, x ≠ y ∧ Hasher.tagged.sum .sha1 x = Hasher.tagged.sum .sha1 y ∧
          ChainInput Hasher.tagged .sha1 (indexDigests .sha1 (measuredOnce [1, 2]).recs i) x ∧
          ChainInput Hasher.tagged .sha1 (indexDigests .sha1 (measuredOnce [2, 1]).recs i) y) :=
  ⟨rfl, rfl, rfl, rfl, replay_binds_digests Hasher.tagged .sha1 _ _ collidingBank rfl rfl rfl rfl⟩

end MeasuredBoot
