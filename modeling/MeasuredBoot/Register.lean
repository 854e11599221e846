import MeasuredBoot.Basic

/-!
The measurement-register model: the banks that replay reads, and the in-memory root of trust
that the tests create, read and extend.
-/

namespace MeasuredBoot

/-- `register.MR`, as replay reads it: an index and a digest. -/
structure MR where
  idx : Int
  dgst : Bytes

/-- `register.MRBank`: the bank's hash algorithm and its registers, in order. -/
structure MRBank where
  cryptoHash : Except GoError Hash
  mrs : List MR

/-- `register.FakeMR`. -/
structure FakeMR where
  index : Int
  digest : Bytes
  digestAlg : Hash

/-- `register.FakeMRBank`. -/
structure FakeMRBank where
  hash : Hash
  fakeMRs : List FakeMR

/-- A `FakeMRBank` as the `MRBank` interface sees it: `CryptoHash` never fails. -/
def FakeMRBank.toMRBank (f : FakeMRBank) : MRBank :=
  { cryptoHash := .ok f.hash, mrs := f.fakeMRs.map fun mr => ⟨mr.index, mr.digest⟩ }

/-- `register.FakeROT`: a bank of registers, index to digest, for each hash algorithm. -/
structure FakeROT where
  fakeMRBanks : GoMap Hash (GoMap Int Bytes)

/-- The zeroed bank that `CreateFakeRot` makes; its loop inserts the fresh indices in order. -/
def zeroBank (hash : Hash) (numIdxs : Nat) : GoMap Int Bytes :=
  (List.range numIdxs).map fun (idx : Nat) => ((idx : Int), zeros hash.size)

/-- `register.CreateFakeRot`. -/
def createFakeRot (hashes : List Hash) (numIdxs : Int) : Except GoError FakeROT :=
  if hashes = [] ∨ numIdxs ≤ 0 then
    .error (.failed s!"hashes ({formatSlice (hashes.map Hash.name)}) or numIdxs ({numIdxs}) was empty")
  else .ok ⟨hashes.foldl (fun banks hash => banks.insert hash (zeroBank hash numIdxs.toNat)) []⟩

namespace FakeROT

/-- `FakeROT.Digest`. -/
def digest (f : FakeROT) (mr : FakeMR) : Except GoError Bytes :=
  match f.fakeMRBanks.get? mr.digestAlg with
  | none => .error (.failed s!"bank {mr.digestAlg.name} not present in fake root of trust")
  | some bank =>
      match bank.get? mr.index with
      | none => .error (.failed
          s!"MR index {mr.index} in bank {mr.digestAlg.name} not present in fake root of trust")
      | some dgst =>
          if dgst.length ≠ mr.digestAlg.size then
            .error (.failed (s!"MR index {mr.index} in bank {mr.digestAlg.name} contained invalid size " ++
              s!"{dgst.length}, expected {mr.digestAlg.size}"))
          else .ok dgst

/-- `FakeROT.ReadMRs`. -/
def readMRs (f : FakeROT) (hash : Hash) (mrSelection : List Int) : Except GoError FakeMRBank :=
  match f.fakeMRBanks.get? hash with
  | none => .error (.failed s!"bank {hash.name} not present in fake root of trust")
  | some bank => do
      let fakeMRs ← mrSelection.mapM fun mrIdx =>
        match bank.get? mrIdx with
        | none => .error (.failed s!"index {mrIdx} not present in bank {hash.name}")
        | some dgst => .ok { index := mrIdx, digest := dgst, digestAlg := hash }
      pure { hash, fakeMRs }

/-- `FakeROT.ExtendMR`: the register becomes the hash of its digest followed by `mr.Digest`. -/
def extendMR (H : Hasher) (f : FakeROT) (mr : FakeMR) : Except GoError FakeROT :=
  if mr.digest.length ≠ mr.digestAlg.size then
    .error (.failed
      s!"invalid digest size {mr.digest.length} for algo {mr.digestAlg.name}, expected {mr.digestAlg.size}")
  else
    match f.digest mr with
    | .error err =>
        let reason := err.text
        .error (.failed s!"failed to extend index {mr.index} in bank {mr.digestAlg.name}: {reason}")
    | .ok mrDigest =>
        .ok ⟨f.fakeMRBanks.insert mr.digestAlg
          (((f.fakeMRBanks.get? mr.digestAlg).getD []).insert mr.index
            (H.sum mr.digestAlg (mrDigest ++ mr.digest)))⟩

/-- The digest register `index` of bank `hash` holds, if both exist. -/
def digestAt (f : FakeROT) (hash : Hash) (index : Int) : Option Bytes :=
  (f.fakeMRBanks.get? hash).bind fun bank => bank.get? index

theorem digest_eq_ok (f : FakeROT) (mr : FakeMR) (dgst : Bytes) :
    f.digest mr = .ok dgst ↔
      f.digestAt mr.digestAlg mr.index = some dgst ∧ dgst.length = mr.digestAlg.size := by
  unfold digest digestAt
  cases f.fakeMRBanks.get? mr.digestAlg with
  | none => simp
  | some bank =>
      cases found : bank.get? mr.index with
      | none => simp [found]
      | some d =>
          by_cases size : d.length = mr.digestAlg.size
          · simp only [found, size, Option.some_bind, Option.some.injEq, ne_eq,
              not_true_eq_false, if_false, Except.ok.injEq]
            constructor
            · rintro rfl; exact ⟨rfl, size⟩
            · rintro ⟨rfl, -⟩; rfl
          · simp only [found, Option.some_bind, Option.some.injEq, size, if_true, ne_eq,
              not_false_eq_true, reduceCtorEq, false_iff, not_and]
            rintro rfl; exact size

theorem extendMR_eq_ok (H : Hasher) (f f' : FakeROT) (mr : FakeMR) :
    f.extendMR H mr = .ok f' ↔
      mr.digest.length = mr.digestAlg.size ∧ ∃ old, f.digest mr = .ok old ∧
        f' = ⟨f.fakeMRBanks.insert mr.digestAlg
          (((f.fakeMRBanks.get? mr.digestAlg).getD []).insert mr.index
            (H.sum mr.digestAlg (old ++ mr.digest)))⟩ := by
  unfold extendMR
  by_cases size : mr.digest.length = mr.digestAlg.size
  · cases f.digest mr <;> simp [size, eq_comm]
  · simp [size]

theorem digestAt_extendMR (H : Hasher) (f f' : FakeROT) (mr : FakeMR) (old : Bytes)
    (found : f.digest mr = .ok old)
    (extended : f' = ⟨f.fakeMRBanks.insert mr.digestAlg
      (((f.fakeMRBanks.get? mr.digestAlg).getD []).insert mr.index
        (H.sum mr.digestAlg (old ++ mr.digest)))⟩)
    (hash : Hash) (index : Int) :
    f'.digestAt hash index =
      if hash = mr.digestAlg ∧ index = mr.index then some (H.sum mr.digestAlg (old ++ mr.digest))
      else f.digestAt hash index := by
  have present : (f.fakeMRBanks.get? mr.digestAlg).isSome := by
    rw [digest_eq_ok, digestAt] at found
    cases bank : f.fakeMRBanks.get? mr.digestAlg <;> simp_all
  subst extended
  unfold digestAt
  by_cases sameHash : hash = mr.digestAlg
  · subst sameHash
    obtain ⟨bank, bankEq⟩ := Option.isSome_iff_exists.mp present
    by_cases sameIndex : index = mr.index
    · simp [bankEq, sameIndex]
    · simp [bankEq, sameIndex, Ne.symm sameIndex]
  · simp [sameHash, Ne.symm sameHash]

theorem readMRs_eq_ok (f : FakeROT) (hash : Hash) (bank : GoMap Int Bytes) (mrSelection : List Int)
    (found : f.fakeMRBanks.get? hash = some bank) (present : ∀ i ∈ mrSelection, (bank.get? i).isSome) :
    f.readMRs hash mrSelection =
      .ok ⟨hash, mrSelection.map fun i => ⟨i, (bank.get? i).getD [], hash⟩⟩ := by
  unfold readMRs
  rw [found]
  simp only
  rw [mapM_eq_ok_map _ (fun i => ⟨i, (bank.get? i).getD [], hash⟩) mrSelection]
  · rfl
  intro i mem
  obtain ⟨d, stored⟩ := Option.isSome_iff_exists.mp (present i mem)
  simp [stored]

end FakeROT

end MeasuredBoot
