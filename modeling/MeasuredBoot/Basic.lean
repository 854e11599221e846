import Mathlib.Data.List.Nodup
import Mathlib.Data.String.Basic

/-!
Byte strings, the Go runtime's errors, maps and slices, and the hash algorithms that the
event-log packages share. A Go map is the list of its entries in the order they were inserted; a
`range` over it visits them in an order Go leaves unspecified, which each loop over a map takes as
an argument (`RangeOrder`).
-/

namespace MeasuredBoot

abbrev Bytes := List UInt8

/-- What a Go call reports besides its values: `io.EOF`, an error made by `fmt.Errorf` or
`errors.New`, or a runtime panic such as a slice bound out of range. -/
inductive GoError
  | eof
  | failed (message : String)
  | panic (message : String)
  deriving DecidableEq, Repr

instance decEqExcept {ε α : Type} [DecidableEq ε] [DecidableEq α] : DecidableEq (Except ε α)
  | .ok a, .ok b => decidable_of_iff (a = b) ⟨congrArg _, Except.ok.inj⟩
  | .error a, .error b => decidable_of_iff (a = b) ⟨congrArg _, Except.error.inj⟩
  | .ok _, .error _ => isFalse nofun
  | .error _, .ok _ => isFalse nofun

/-- The text `%v` prints for an error. -/
def GoError.text : GoError → String
  | eof => "EOF"
  | failed message => message
  | panic message => message

/-- The text `%v` prints for a slice: its elements' texts in brackets, separated by spaces. -/
def formatSlice (items : List String) : String :=
  "[" ++ " ".intercalate items ++ "]"

/-- The text `%s` prints for a byte slice: the bytes themselves, one character to a byte. -/
def formatBytesAsString (b : List UInt8) : String :=
  String.mk (b.map fun x => Char.ofNat x.toNat)

/-- Whether a result is a runtime panic rather than a value or an error. -/
def panicked {α : Type} : Except GoError α → Bool
  | .error (.panic _) => true
  | _ => false

@[simp] theorem panicked_ok {α : Type} (a : α) : panicked (.ok a : Except GoError α) = false := rfl

@[simp] theorem panicked_failed {α : Type} (message : String) :
    panicked (.error (.failed message) : Except GoError α) = false := rfl

@[simp] theorem panicked_eof {α : Type} : panicked (.error .eof : Except GoError α) = false := rfl

theorem bind_eq_ok {ε α β : Type} (x : Except ε α) (f : α → Except ε β) (b : β) :
    x >>= f = .ok b ↔ ∃ a, x = .ok a ∧ f a = .ok b := by
  cases x <;> simp [bind, Except.bind]

theorem guard_eq_ok_iff {ε α : Type} {c : Prop} [Decidable c] {err : ε} {x : Except ε α} {a : α} :
    (if c then .error err else x) = .ok a ↔ ¬c ∧ x = .ok a := by
  by_cases hc : c <;> simp [hc]

theorem guard_else_eq_ok_iff {ε α : Type} {c : Prop} [Decidable c] {err : ε} {x : Except ε α} {a : α} :
    (if c then x else .error err) = .ok a ↔ c ∧ x = .ok a := by
  by_cases hc : c <;> simp [hc]

theorem guard_eq_ok {ε α : Type} {c : Prop} [Decidable c] {err : ε} {x : Except ε α} {a : α}
    (passed : (if c then .error err else x) = .ok a) : ¬c ∧ x = .ok a :=
  guard_eq_ok_iff.1 passed

theorem mapM_eq_ok_map {α β : Type} (g : α → Except GoError β) (g' : α → β) (l : List α)
    (ok : ∀ a ∈ l, g a = .ok (g' a)) : l.mapM g = .ok (l.map g') := by
  induction l with
  | nil => rfl
  | cons a rest ih =>
      rw [List.mapM_cons, ok a (List.mem_cons_self a rest),
        ih fun b mem => ok b (List.mem_cons_of_mem a mem)]
      rfl

theorem panicked_bind {α β : Type} (x : Except GoError α) (f : α → Except GoError β)
    (first : panicked x = false) (rest : ∀ a, x = .ok a → panicked (f a) = false) :
    panicked (x >>= f) = false := by
  cases x with
  | error e => cases e <;> simp_all [bind, Except.bind, panicked]
  | ok a => exact rest a rfl

theorem panicked_error {α β : Type} (e : GoError) :
    panicked (.error e : Except GoError α) = panicked (.error e : Except GoError β) := by
  cases e <;> rfl

/-- `make([]byte, n)`. -/
def zeros (n : Nat) : Bytes := List.replicate n 0

@[simp] theorem length_zeros (n : Nat) : (zeros n).length = n := List.length_replicate n 0

/-! ### Slices -/

/-- `s[i]`, which panics when `i` is out of range. -/
def byteAt (s : Bytes) (i : Nat) : Except GoError UInt8 :=
  if h : i < s.length then .ok s[i] else .error (.panic "index out of range")

/-- `s[low:high]`, which panics unless `low ≤ high ≤ len(s)`. -/
def sliceBytes (s : Bytes) (low high : Nat) : Except GoError Bytes :=
  if low ≤ high ∧ high ≤ s.length then .ok ((s.drop low).take (high - low))
  else .error (.panic "slice bounds out of range")

/-- `s[low:]`, which panics when `low > len(s)`. -/
def sliceFrom (s : Bytes) (low : Nat) : Except GoError Bytes :=
  if low ≤ s.length then .ok (s.drop low) else .error (.panic "slice bounds out of range")

/-- `bytes.HasPrefix`. -/
def hasPrefix (s pre : Bytes) : Bool := s.take pre.length == pre

theorem hasPrefix_iff (s pre : Bytes) : hasPrefix s pre = true ↔ pre <+: s := by
  rw [hasPrefix, beq_iff_eq, List.prefix_iff_eq_take]
  exact eq_comm

/-! ### Big-endian integers -/

/-- `binary.BigEndian.PutUintN` into `width` bytes: `n` modulo `256 ^ width`, most significant
byte first. -/
def putBigEndian : Nat → Nat → Bytes
  | 0, _ => []
  | width + 1, n => putBigEndian width (n / 256) ++ [n.toUInt8]

/-- `binary.BigEndian.UintN`: the number that a big-endian byte string spells. -/
def bigEndianValue (bytes : Bytes) : Nat := bytes.foldl (fun acc b => acc * 256 + b.toNat) 0

theorem toNat_toUInt8 (n : Nat) : n.toUInt8.toNat = n % 256 := by
  simp [Nat.toUInt8, UInt8.toNat, UInt8.ofNat]

@[simp] theorem length_putBigEndian (width n : Nat) : (putBigEndian width n).length = width := by
  induction width generalizing n with
  | zero => rfl
  | succ width ih => simp [putBigEndian, ih]

theorem bigEndianValue_append_singleton (bytes : Bytes) (b : UInt8) :
    bigEndianValue (bytes ++ [b]) = bigEndianValue bytes * 256 + b.toNat := by
  simp [bigEndianValue]

theorem bigEndianValue_putBigEndian (width n : Nat) :
    bigEndianValue (putBigEndian width n) = n % 256 ^ width := by
  induction width generalizing n with
  | zero => simp [putBigEndian, bigEndianValue, Nat.mod_one]
  | succ width ih =>
      rw [putBigEndian, bigEndianValue_append_singleton, ih, toNat_toUInt8, Nat.pow_succ,
        Nat.mul_comm (256 ^ width), Nat.mod_mul]
      omega

theorem bigEndianValue_lt (bytes : Bytes) : bigEndianValue bytes < 256 ^ bytes.length := by
  induction bytes using List.reverseRecOn with
  | nil => simp [bigEndianValue]
  | append_singleton bytes b ih =>
      rw [bigEndianValue_append_singleton, List.length_append, List.length_singleton,
        Nat.pow_succ]
      have := b.toNat_lt
      omega

theorem putBigEndian_bigEndianValue (bytes : Bytes) :
    putBigEndian bytes.length (bigEndianValue bytes) = bytes := by
  induction bytes using List.reverseRecOn with
  | nil => rfl
  | append_singleton bytes b ih =>
      have low : (bigEndianValue bytes * 256 + b.toNat) % 256 = b.toNat := by
        have := b.toNat_lt
        omega
      have high : (bigEndianValue bytes * 256 + b.toNat) / 256 = bigEndianValue bytes := by
        have := b.toNat_lt
        omega
      rw [List.length_append, List.length_singleton, putBigEndian,
        bigEndianValue_append_singleton, high, ih]
      congr
      exact UInt8.toNat.inj (by rw [toNat_toUInt8, low])

theorem putBigEndian_mod (width n : Nat) :
    putBigEndian width (n % 256 ^ width) = putBigEndian width n := by
  have spelled := putBigEndian_bigEndianValue (putBigEndian width n)
  rwa [length_putBigEndian, bigEndianValue_putBigEndian] at spelled

/-! ### Maps -/

/-- A Go map, as its entries in the order they were inserted. A `range` over it need not visit
them in that order (`RangeOrder`). -/
abbrev GoMap (κ ν : Type) := List (κ × ν)

namespace GoMap

variable {κ ν : Type}

def keys (m : GoMap κ ν) : List κ := m.map Prod.fst

@[simp] theorem keys_nil : keys ([] : GoMap κ ν) = [] := rfl

@[simp] theorem keys_cons (entry : κ × ν) (rest : GoMap κ ν) :
    keys (entry :: rest) = entry.1 :: keys rest := rfl

variable [DecidableEq κ]

/-- `v, ok := m[k]`, as an option. -/
def get? : GoMap κ ν → κ → Option ν
  | [], _ => none
  | (key, value) :: rest, k => if key = k then some value else get? rest k

/-- `m[k] = v`: the entry of `k` is overwritten where it stands, or a new one is added last. -/
def insert : GoMap κ ν → κ → ν → GoMap κ ν
  | [], k, v => [(k, v)]
  | (key, value) :: rest, k, v =>
      if key = k then (k, v) :: rest else (key, value) :: insert rest k v

@[simp] theorem get?_nil (k : κ) : get? ([] : GoMap κ ν) k = none := rfl

@[simp] theorem get?_cons (key k : κ) (value : ν) (rest : GoMap κ ν) :
    get? ((key, value) :: rest) k = if key = k then some value else get? rest k := rfl

@[simp] theorem get?_insert (m : GoMap κ ν) (k k' : κ) (v : ν) :
    (m.insert k v).get? k' = if k = k' then some v else m.get? k' := by
  induction m with
  | nil => simp [insert]
  | cons entry rest ih =>
      obtain ⟨key, value⟩ := entry
      by_cases same : key = k
      · subst same
        by_cases hit : key = k' <;> simp [insert, hit]
      · simp only [insert, same, if_false, get?_cons, ih]
        by_cases hit : key = k' <;> by_cases hit' : k = k' <;> simp_all

theorem get?_isSome_iff (m : GoMap κ ν) (k : κ) : (m.get? k).isSome ↔ k ∈ m.keys := by
  induction m with
  | nil => simp
  | cons entry rest ih =>
      obtain ⟨key, value⟩ := entry
      by_cases hit : key = k
      · simp [hit]
      · simp [hit, ih, Ne.symm hit]

theorem get?_foldl_insert (f : κ → ν) (ks : List κ) (start : GoMap κ ν) (k : κ) :
    (ks.foldl (fun m key => m.insert key (f key)) start).get? k =
      if k ∈ ks then some (f k) else start.get? k := by
  induction ks generalizing start with
  | nil => simp
  | cons first rest ih =>
      rw [List.foldl_cons, ih, get?_insert]
      by_cases later : k ∈ rest
      · simp [later]
      · by_cases same : first = k
        · subst same; simp
        · simp [later, same, Ne.symm same]

theorem keys_insert (m : GoMap κ ν) (k : κ) (v : ν) :
    (m.insert k v).keys = if k ∈ m.keys then m.keys else m.keys ++ [k] := by
  induction m with
  | nil => simp [insert]
  | cons entry rest ih =>
      obtain ⟨key, value⟩ := entry
      by_cases same : key = k
      · subst same; simp [insert]
      · by_cases old : k ∈ keys rest <;> simp [insert, same, ih, old, Ne.symm same]

theorem nodup_keys_insert (m : GoMap κ ν) (k : κ) (v : ν) (nodup : m.keys.Nodup) :
    (m.insert k v).keys.Nodup := by
  rw [keys_insert]
  split
  · exact nodup
  · exact nodup.append (List.nodup_singleton k) (by simp_all)

theorem nodup_keys_foldl_insert (entries : List (κ × ν)) (start : GoMap κ ν) (nodup : start.keys.Nodup) :
    (entries.foldl (fun acc e => acc.insert e.1 e.2) start).keys.Nodup := by
  induction entries generalizing start with
  | nil => exact nodup
  | cons entry rest ih => exact ih _ (nodup_keys_insert _ _ _ nodup)

theorem insert_of_not_mem (m : GoMap κ ν) (k : κ) (v : ν) (absent : k ∉ m.keys) :
    m.insert k v = m ++ [(k, v)] := by
  induction m with
  | nil => rfl
  | cons entry rest ih =>
      obtain ⟨key, value⟩ := entry
      simp only [keys_cons, List.mem_cons, not_or] at absent
      simp [insert, Ne.symm absent.1, ih absent.2]

theorem mem_insert (m : GoMap κ ν) (k k' : κ) (v v' : ν) (mem : (k', v') ∈ m.insert k v) :
    (k', v') ∈ m ∨ (k' = k ∧ v' = v) := by
  induction m with
  | nil => simp_all [insert]
  | cons entry rest ih =>
      obtain ⟨key, value⟩ := entry
      by_cases same : key = k
      · subst same
        simp only [insert, if_true, List.mem_cons, Prod.mk.injEq] at mem
        rcases mem with hit | later
        · exact .inr hit
        · exact .inl (List.mem_cons_of_mem _ later)
      · simp only [insert, same, if_false, List.mem_cons] at mem
        rcases mem with hit | later
        · exact .inl (hit ▸ List.mem_cons_self _ _)
        · rcases ih later with old | new
          · exact .inl (List.mem_cons_of_mem _ old)
          · exact .inr new

theorem foldl_insert_eq_append (m start : GoMap κ ν) (nodup : (start ++ m).keys.Nodup) :
    m.foldl (fun acc entry => acc.insert entry.1 entry.2) start = start ++ m := by
  induction m generalizing start with
  | nil => simp
  | cons entry rest ih =>
      have fresh : entry.1 ∉ start.keys := by
        intro mem
        simp only [keys, List.map_append, List.map_cons] at nodup
        exact (List.nodup_append.mp nodup).2.2 mem (List.mem_cons_self _ _)
      rw [List.foldl_cons, insert_of_not_mem _ _ _ fresh, ih _ (by simpa using nodup)]
      simp

theorem mem_iff_get? (m : GoMap κ ν) (nodup : m.keys.Nodup) (k : κ) (v : ν) :
    (k, v) ∈ m ↔ m.get? k = some v := by
  induction m with
  | nil => simp
  | cons entry rest ih =>
      obtain ⟨key, value⟩ := entry
      simp only [keys_cons, List.nodup_cons] at nodup
      by_cases hit : key = k
      · subst hit
        have absent : ∀ w, (key, w) ∉ rest := fun w member =>
          nodup.1 (List.mem_map.mpr ⟨(key, w), member, rfl⟩)
        simp only [List.mem_cons, Prod.mk.injEq, true_and, get?_cons, if_true,
          Option.some.injEq]
        constructor
        · rintro (same | member)
          · exact same.symm
          · exact absurd member (absent v)
        · intro same; exact Or.inl same.symm
      · simp [hit, Ne.symm hit, ih nodup.2]

theorem get?_eq_of_perm {m m' : GoMap κ ν} (p : m.Perm m') (nodup : m.keys.Nodup) (k : κ) :
    m.get? k = m'.get? k := by
  have nodup' : m'.keys.Nodup := (p.map Prod.fst).nodup_iff.1 nodup
  refine Option.ext fun v => ?_
  rw [Option.mem_def, Option.mem_def, ← mem_iff_get? m nodup, ← mem_iff_get? m' nodup', p.mem_iff]

end GoMap

/-- The order in which a `for ... range` loop visits a map. Go leaves it unspecified and may
pick another one each time a loop starts, so a loop over a map takes its order as an argument:
any permutation of the map's entries. -/
structure RangeOrder (κ ν : Type) where
  visit : GoMap κ ν → GoMap κ ν
  perm : ∀ m, (visit m).Perm m

namespace RangeOrder

variable {κ ν : Type}

/-- The order the entries were inserted in. -/
def inserted : RangeOrder κ ν := ⟨id, List.Perm.refl⟩

/-- The reverse of the order the entries were inserted in. -/
def reversed : RangeOrder κ ν := ⟨List.reverse, List.reverse_perm⟩

@[simp] theorem mem_visit (order : RangeOrder κ ν) (m : GoMap κ ν) (e : κ × ν) :
    e ∈ order.visit m ↔ e ∈ m :=
  (order.perm m).mem_iff

theorem nodup_keys_visit (order : RangeOrder κ ν) (m : GoMap κ ν) (nodup : m.keys.Nodup) :
    (order.visit m).keys.Nodup :=
  ((order.perm m).map Prod.fst).nodup_iff.2 nodup

theorem get?_visit [DecidableEq κ] (order : RangeOrder κ ν) (m : GoMap κ ν) (nodup : m.keys.Nodup)
    (k : κ) : (order.visit m).get? k = m.get? k :=
  GoMap.get?_eq_of_perm (order.perm m) (order.nodup_keys_visit m nodup) k

end RangeOrder

/-! ### Hash algorithms -/

/-- The `crypto.Hash` algorithms that appear in event logs. -/
inductive Hash
  | md5
  | sha1
  | sha224
  | sha256
  | sha384
  | sha512
  deriving DecidableEq, Repr

namespace Hash

/-- `crypto.Hash.Size`. -/
def size : Hash → Nat
  | md5 => 16
  | sha1 => 20
  | sha224 => 28
  | sha256 => 32
  | sha384 => 48
  | sha512 => 64

/-- `crypto.Hash.String`. -/
def name : Hash → String
  | md5 => "MD5"
  | sha1 => "SHA-1"
  | sha224 => "SHA-224"
  | sha256 => "SHA-256"
  | sha384 => "SHA-384"
  | sha512 => "SHA-512"

/-- `tpm2.HashToAlgorithm`: the TCG algorithm identifier of a hash. -/
def toAlgorithm : Hash → Except GoError UInt16
  | sha1 => .ok 0x0004
  | sha256 => .ok 0x000B
  | sha384 => .ok 0x000C
  | sha512 => .ok 0x000D
  | h => .error (.failed s!"go hash algorithm {h.name} has no TPM2 algorithm")

end Hash

/-- `tpm2.Algorithm.Hash`: the hash that a TCG algorithm identifier names. -/
def algorithmHash (alg : UInt16) : Except GoError Hash :=
  if alg = 0x0004 then .ok .sha1
  else if alg = 0x000B then .ok .sha256
  else if alg = 0x000C then .ok .sha384
  else if alg = 0x000D then .ok .sha512
  else .error (.failed s!"hash algorithm not supported: {alg}")

theorem algorithmHash_toAlgorithm (h : Hash) (alg : UInt16) (named : h.toAlgorithm = .ok alg) :
    alg.toNat < 256 ∧ algorithmHash alg.toNat.toUInt8.toNat.toUInt16 = .ok h := by
  cases h <;> simp [Hash.toAlgorithm] at named <;> subst named <;> decide

/-- The type byte `createDigestField` writes for a hash: `uint8` of its TPM algorithm identifier. -/
def Hash.typeByte (h : Hash) : UInt8 :=
  match h.toAlgorithm with
  | .ok alg => alg.toNat.toUInt8
  | .error _ => 0

theorem algorithmHash_typeByte (h : Hash) (named : ∃ alg, h.toAlgorithm = .ok alg) :
    algorithmHash h.typeByte.toNat.toUInt16 = .ok h := by
  obtain ⟨alg, algOk⟩ := named
  rw [Hash.typeByte, algOk]
  exact (algorithmHash_toAlgorithm h alg algOk).2

theorem toUInt16_toNat_inj {b c : UInt8} (same : b.toNat.toUInt16 = c.toNat.toUInt16) : b = c := by
  have widen : ∀ a : UInt8, a.toNat.toUInt16.toNat = a.toNat := fun a =>
    UInt16.toNat_ofNat_of_lt (Nat.lt_trans a.toNat_lt (by decide))
  exact UInt8.toNat.inj (by rw [← widen b, same, widen])

theorem typeByte_of_algorithmHash (b : UInt8) (h : Hash) (read : algorithmHash b.toNat.toUInt16 = .ok h) :
    b = h.typeByte := by
  unfold algorithmHash at read
  split_ifs at read <;> cases read <;> exact toUInt16_toNat_inj (by assumption)

/-- A hash function: what `h.New()`, writes of the message and `Sum(nil)` compute. Every
digest has the algorithm's size. -/
structure Hasher where
  sum : Hash → Bytes → Bytes
  sum_length : ∀ h message, (sum h message).length = h.size

/-- A stand-in hash function for concrete runs: the message's length and the sum of its bytes in
the first two bytes, then zero bytes. It only serves runs that need digests of the right size that
tell apart the few messages of the run. -/
def Hasher.tagged : Hasher where
  sum h message := message.length.toUInt8 :: message.foldl (· + ·) 0 :: zeros (h.size - 2)
  sum_length h _ := by cases h <;> rfl

end MeasuredBoot
