import Mathlib.Algebra.Group.Even
import Mathlib.Algebra.Ring.Parity
import Mathlib.Algebra.BigOperators.Group.List.Basic

/-!
# Byte memory, byte order and big-endian words

Memory is a total map from addresses to bytes; an object is a range of
addresses. Everything that reads or writes memory goes through three
operations, each with its frame lemmas:

* `Mem.bytes`: the bytes of a range, as a list (`bytes_add` splits a range,
  `bytes_congr` is locality);
* `Mem.write`: overwrite a range with a list (`write_inside`, `write_outside`);
* `load16`, `load32`, `store16`: words in the byte order of the host.

`htons` turns a host word into one whose bytes in memory are in network order,
so `store16_htons` is the same write on either host. `beWords` reads a byte
list as big-endian 16-bit words, a last odd byte being the high half of a word
padded with zero; `beSum_append` splits it at even offsets.
-/

namespace Bytes

/-! ## Memory -/

/-- A byte memory. -/
abbrev Mem : Type := ℕ → UInt8

namespace Mem

/-- The `n` bytes from address `a` on. -/
def bytes (m : Mem) : ℕ → ℕ → List UInt8
  | _, 0 => []
  | a, n + 1 => m a :: bytes m (a + 1) n

/-- Overwrite the bytes from address `a` on with `bs`. -/
def write (m : Mem) (a : ℕ) (bs : List UInt8) : Mem :=
  fun x => if a ≤ x then (bs[x - a]?).getD (m x) else m x

@[simp] theorem bytes_zero (m : Mem) (a : ℕ) : m.bytes a 0 = [] := rfl

theorem bytes_succ (m : Mem) (a n : ℕ) : m.bytes a (n + 1) = m a :: m.bytes (a + 1) n := rfl

@[simp] theorem length_bytes (m : Mem) : ∀ a n : ℕ, (m.bytes a n).length = n
  | _, 0 => rfl
  | a, n + 1 => by rw [bytes_succ, List.length_cons, length_bytes m (a + 1) n]

/-- Locality: the bytes of a range depend on that range only. -/
theorem bytes_congr {m m' : Mem} {a n : ℕ} (h : ∀ x, a ≤ x → x < a + n → m x = m' x) :
    m.bytes a n = m'.bytes a n := by
  induction n generalizing a with
  | zero => rfl
  | succ n ih =>
    rw [bytes_succ, bytes_succ, h a (le_refl a) (by omega),
      ih fun x hx hx' => h x (by omega) (by omega)]

/-- A range splits at any offset. -/
theorem bytes_add (m : Mem) (a k n : ℕ) :
    m.bytes a (k + n) = m.bytes a k ++ m.bytes (a + k) n := by
  induction k generalizing a with
  | zero => simp
  | succ k ih =>
    rw [show k + 1 + n = k + n + 1 by omega, bytes_succ, bytes_succ, ih, List.cons_append,
      show a + 1 + k = a + (k + 1) by omega]

theorem getElem?_bytes (m : Mem) {a n i : ℕ} (h : i < n) : (m.bytes a n)[i]? = some (m (a + i)) := by
  induction n generalizing a i with
  | zero => omega
  | succ n ih =>
    rw [bytes_succ]
    cases i with
    | zero => rfl
    | succ i => rw [List.getElem?_cons_succ, ih (by omega), show a + 1 + i = a + (i + 1) by omega]

/-- Frame: a write leaves every address outside its range alone. -/
theorem write_outside {m : Mem} {a x : ℕ} {bs : List UInt8} (h : x < a ∨ a + bs.length ≤ x) :
    m.write a bs x = m x := by
  by_cases hx : a ≤ x
  · rw [write, if_pos hx, List.getElem?_eq_none (by omega), Option.getD_none]
  · rw [write, if_neg hx]

/-- Inside its range a write leaves the bytes written. -/
theorem write_inside {m : Mem} {a i : ℕ} {bs : List UInt8} (h : i < bs.length) :
    m.write a bs (a + i) = bs[i] := by
  rw [write, if_pos (Nat.le_add_right a i), Nat.add_sub_cancel_left,
    List.getElem?_eq_getElem h, Option.getD_some]

/-- Reading back a written range. -/
theorem bytes_write_self (m : Mem) (a : ℕ) (bs : List UInt8) :
    (m.write a bs).bytes a bs.length = bs := by
  apply List.ext_getElem?
  intro i
  by_cases h : i < bs.length
  · rw [getElem?_bytes _ h, write_inside h, List.getElem?_eq_getElem h]
  · rw [List.getElem?_eq_none (by rw [length_bytes]; omega), List.getElem?_eq_none (by omega)]

/-- Reading back a written range of known length. -/
theorem bytes_write {m : Mem} {a n : ℕ} {bs : List UInt8} (h : bs.length = n) :
    (m.write a bs).bytes a n = bs := by
  rw [← h, bytes_write_self]

/-- What lies from an address on lies there piece by piece. -/
theorem bytes_eq_append {m : Mem} {a : ℕ} {bs cs : List UInt8} :
    m.bytes a (bs ++ cs).length = bs ++ cs ↔
      m.bytes a bs.length = bs ∧ m.bytes (a + bs.length) cs.length = cs := by
  rw [List.length_append, bytes_add]
  refine ⟨fun h => List.append_inj h (length_bytes ..), ?_⟩
  rintro ⟨hbs, hcs⟩
  rw [hbs, hcs]

/-- Writing what is there already changes nothing. -/
theorem write_eq_self {m : Mem} {a : ℕ} {bs : List UInt8} (h : m.bytes a bs.length = bs) :
    m.write a bs = m := by
  funext x
  by_cases hx : a ≤ x ∧ x < a + bs.length
  · obtain ⟨i, rfl⟩ := Nat.exists_eq_add_of_le hx.1
    have hi : i < bs.length := by omega
    have hget := m.getElem?_bytes (a := a) hi
    rw [h, List.getElem?_eq_getElem hi] at hget
    rw [write_inside hi]
    exact Option.some.inj hget
  · exact write_outside (by omega)

/-- A write is lost under one of the same length. -/
theorem write_write {m : Mem} {a : ℕ} {bs cs : List UInt8} (h : bs.length = cs.length) :
    (m.write a bs).write a cs = m.write a cs := by
  funext x
  by_cases hx : a ≤ x ∧ x < a + cs.length
  · obtain ⟨i, rfl⟩ := Nat.exists_eq_add_of_le hx.1
    have hi : i < cs.length := by omega
    rw [write_inside hi, write_inside hi]
  · rw [write_outside (by omega), write_outside (by omega), write_outside (by omega)]

/-- Frame for one byte. -/
theorem write_byte_outside {m : Mem} {a x : ℕ} {b : UInt8} (h : x < a ∨ a + 1 ≤ x) :
    m.write a [b] x = m x :=
  write_outside h

/-- Frame for ranges: a write outside a range does not change its bytes. -/
theorem bytes_write_of_disjoint {m : Mem} {a b n : ℕ} {bs : List UInt8}
    (h : b + n ≤ a ∨ a + bs.length ≤ b) : (m.write a bs).bytes b n = m.bytes b n :=
  bytes_congr fun x _ _ => write_outside (by omega)

end Mem

/-! ## Byte order -/

/-- The byte order of the host. -/
inductive ByteOrder : Type where
  /-- least significant byte first -/
  | little
  /-- most significant byte first -/
  | big
  deriving DecidableEq

namespace ByteOrder

variable (o : ByteOrder)

/-- The 16-bit word at `a`. -/
def load16 (m : Mem) (a : ℕ) : UInt16 :=
  match o with
  | little => UInt16.ofNat ((m a).toNat + 256 * (m (a + 1)).toNat)
  | big => UInt16.ofNat (256 * (m a).toNat + (m (a + 1)).toNat)

/-- The 32-bit word at `a`. -/
def load32 (m : Mem) (a : ℕ) : UInt32 :=
  match o with
  | little => UInt32.ofNat ((o.load16 m a).toNat + 65536 * (o.load16 m (a + 2)).toNat)
  | big => UInt32.ofNat (65536 * (o.load16 m a).toNat + (o.load16 m (a + 2)).toNat)

variable {o} in
/-- Locality: a word depends on its own bytes only. -/
theorem load16_congr {m m' : Mem} {a : ℕ} (h : ∀ x, a ≤ x → x < a + 2 → m x = m' x) :
    o.load16 m a = o.load16 m' a := by
  simp only [load16, h a (le_refl a) (by omega), h (a + 1) (by omega) (by omega)]

variable {o} in
theorem load32_congr {m m' : Mem} {a : ℕ} (h : ∀ x, a ≤ x → x < a + 4 → m x = m' x) :
    o.load32 m a = o.load32 m' a := by
  have hlow : o.load16 m a = o.load16 m' a := load16_congr fun x hx hx' => h x hx (by omega)
  have hhigh : o.load16 m (a + 2) = o.load16 m' (a + 2) :=
    load16_congr fun x hx hx' => h x (by omega) (by omega)
  simp only [load32, hlow, hhigh]

/-- The bytes of a 16-bit word as the host lays them out. -/
def bytes16 (v : UInt16) : List UInt8 :=
  match o with
  | little => [UInt8.ofNat (v.toNat % 256), UInt8.ofNat (v.toNat / 256)]
  | big => [UInt8.ofNat (v.toNat / 256), UInt8.ofNat (v.toNat % 256)]

/-- The bytes of a 32-bit word as the host lays them out. -/
def bytes32 (v : UInt32) : List UInt8 :=
  match o with
  | little =>
    o.bytes16 (UInt16.ofNat (v.toNat % 65536)) ++ o.bytes16 (UInt16.ofNat (v.toNat / 65536))
  | big =>
    o.bytes16 (UInt16.ofNat (v.toNat / 65536)) ++ o.bytes16 (UInt16.ofNat (v.toNat % 65536))

/-- Store a 16-bit word at `a`. -/
def store16 (m : Mem) (a : ℕ) (v : UInt16) : Mem := m.write a (o.bytes16 v)

/-- Store a 32-bit word at `a`. -/
def store32 (m : Mem) (a : ℕ) (v : UInt32) : Mem := m.write a (o.bytes32 v)

/-- Host to network order: swap the bytes on a little-endian host. -/
def htons (v : UInt16) : UInt16 :=
  match o with
  | little => UInt16.ofNat (v.toNat % 256 * 256 + v.toNat / 256)
  | big => v

@[simp] theorem length_bytes16 (v : UInt16) : (o.bytes16 v).length = 2 := by
  cases o <;> rfl

@[simp] theorem length_bytes32 (v : UInt32) : (o.bytes32 v).length = 4 := by
  cases o <;> simp [bytes32]

/-- The two bytes of a word in network order. -/
def network16 (v : UInt16) : List UInt8 :=
  [UInt8.ofNat (v.toNat / 256), UInt8.ofNat (v.toNat % 256)]

@[simp] theorem length_network16 (v : UInt16) : (network16 v).length = 2 := rfl

/-- **A stored `htons` is in network order on either host.** -/
theorem bytes16_htons (v : UInt16) : o.bytes16 (o.htons v) = network16 v := by
  cases o with
  | big => rfl
  | little =>
    have hv : v.toNat < 65536 := v.toNat_lt
    have hswap : (UInt16.ofNat (v.toNat % 256 * 256 + v.toNat / 256)).toNat =
        v.toNat % 256 * 256 + v.toNat / 256 := by
      rw [UInt16.toNat_ofNat']
      omega
    have hlow : (v.toNat % 256 * 256 + v.toNat / 256) % 256 = v.toNat / 256 := by omega
    have hhigh : (v.toNat % 256 * 256 + v.toNat / 256) / 256 = v.toNat % 256 := by omega
    simp only [bytes16, htons, network16, hswap, hlow, hhigh]

theorem store16_htons (m : Mem) (a : ℕ) (v : UInt16) :
    o.store16 m a (o.htons v) = m.write a (network16 v) := by
  rw [store16, bytes16_htons]

variable {o} in
/-- Frame for stored words. -/
theorem store16_outside {m : Mem} {a x : ℕ} {v : UInt16} (h : x < a ∨ a + 2 ≤ x) :
    o.store16 m a v x = m x :=
  Mem.write_outside (by rwa [length_bytes16])

variable {o} in
theorem store32_outside {m : Mem} {a x : ℕ} {v : UInt32} (h : x < a ∨ a + 4 ≤ x) :
    o.store32 m a v x = m x :=
  Mem.write_outside (by rwa [length_bytes32])

theorem write_network16_outside {m : Mem} {a x : ℕ} {v : UInt16} (h : x < a ∨ a + 2 ≤ x) :
    m.write a (network16 v) x = m x :=
  Mem.write_outside h

/-- Reading back a stored 16-bit word. -/
theorem load16_write (m : Mem) (a : ℕ) (v : UInt16) :
    o.load16 (m.write a (o.bytes16 v)) a = v := by
  have h0 : m.write a (o.bytes16 v) a = (o.bytes16 v)[0] := Mem.write_inside (i := 0) (by simp)
  have h1 : m.write a (o.bytes16 v) (a + 1) = (o.bytes16 v)[1] := Mem.write_inside (by simp)
  have hv : v.toNat < 65536 := v.toNat_lt
  apply UInt16.toNat_inj.mp
  cases o with
  | little =>
    simp only [bytes16, List.getElem_cons_zero, List.getElem_cons_succ] at h0 h1
    simp only [load16, bytes16, h0, h1, UInt16.toNat_ofNat', UInt8.toNat_ofNat']
    omega
  | big =>
    simp only [bytes16, List.getElem_cons_zero, List.getElem_cons_succ] at h0 h1
    simp only [load16, bytes16, h0, h1, UInt16.toNat_ofNat', UInt8.toNat_ofNat']
    omega

/-- Frame: a write outside a word leaves it alone. -/
theorem load16_write_of_disjoint {m : Mem} {a b : ℕ} {bs : List UInt8}
    (h : b + 2 ≤ a ∨ a + bs.length ≤ b) : o.load16 (m.write a bs) b = o.load16 m b :=
  load16_congr fun x _ _ => Mem.write_outside (by omega)

/-- Two writes one behind the other are one. -/
theorem write_append (m : Mem) (a : ℕ) (bs cs : List UInt8) :
    m.write a (bs ++ cs) = (m.write (a + bs.length) cs).write a bs := by
  funext x
  rw [Mem.write, Mem.write, Mem.write]
  by_cases hx : a ≤ x
  · by_cases hin : x - a < bs.length
    · rw [if_pos hx, if_pos hx, List.getElem?_append_left hin, List.getElem?_eq_getElem hin]
      rfl
    · have hnone : bs[x - a]? = none := List.getElem?_eq_none (Nat.le_of_not_lt hin)
      rw [if_pos hx, if_pos hx, List.getElem?_append_right (Nat.le_of_not_lt hin), hnone,
        if_pos (by omega), Nat.sub_sub]
      rfl
  · have hlt : ¬ a + bs.length ≤ x := by omega
    simp [hx, hlt]

/-- Reading back a stored 32-bit word. -/
theorem load32_write (m : Mem) (a : ℕ) (v : UInt32) :
    o.load32 (m.write a (o.bytes32 v)) a = v := by
  have hv : v.toNat < 4294967296 := v.toNat_lt
  have hword : ∀ lo hi : UInt16,
      o.load16 (m.write a (o.bytes16 lo ++ o.bytes16 hi)) a = lo ∧
        o.load16 (m.write a (o.bytes16 lo ++ o.bytes16 hi)) (a + 2) = hi := by
    intro lo hi
    rw [write_append, length_bytes16]
    have hhigh : o.load16 ((m.write (a + 2) (o.bytes16 hi)).write a (o.bytes16 lo)) (a + 2) =
        o.load16 (m.write (a + 2) (o.bytes16 hi)) (a + 2) :=
      o.load16_write_of_disjoint (.inr (by rw [length_bytes16]))
    rw [hhigh, load16_write, load16_write]
    exact ⟨rfl, rfl⟩
  apply UInt32.toNat_inj.mp
  cases o with
  | little =>
    simp only [load32, bytes32, (hword _ _).1, (hword _ _).2, UInt32.toNat_ofNat',
      UInt16.toNat_ofNat']
    omega
  | big =>
    simp only [load32, bytes32, (hword _ _).1, (hword _ _).2, UInt32.toNat_ofNat',
      UInt16.toNat_ofNat']
    omega

variable {o} in
/-- A word whose bytes lie at an address is read there. -/
theorem load16_of_bytes {m : Mem} {a : ℕ} {v : UInt16}
    (h : m.bytes a (o.bytes16 v).length = o.bytes16 v) : o.load16 m a = v := by
  rw [← Mem.write_eq_self h, load16_write]

variable {o} in
theorem load32_of_bytes {m : Mem} {a : ℕ} {v : UInt32}
    (h : m.bytes a (o.bytes32 v).length = o.bytes32 v) : o.load32 m a = v := by
  rw [← Mem.write_eq_self h, load32_write]

end ByteOrder

/-! ## Big-endian words -/

/-- The big-endian word of two bytes. -/
def beWord (hi lo : UInt8) : ℕ := 256 * hi.toNat + lo.toNat

/-- A byte list as big-endian 16-bit words; a last odd byte is padded with zero. -/
def beWords : List UInt8 → List ℕ
  | hi :: lo :: rest => beWord hi lo :: beWords rest
  | [hi] => [beWord hi 0]
  | [] => []

/-- The plain sum of the big-endian words of a byte list. -/
def beSum (bs : List UInt8) : ℕ := (beWords bs).sum

@[simp] theorem beSum_nil : beSum [] = 0 := rfl

@[simp] theorem beSum_singleton (hi : UInt8) : beSum [hi] = beWord hi 0 := rfl

@[simp] theorem beSum_cons_cons (hi lo : UInt8) (rest : List UInt8) :
    beSum (hi :: lo :: rest) = beWord hi lo + beSum rest := List.sum_cons

theorem beWord_le (hi lo : UInt8) : beWord hi lo ≤ 65535 := by
  have := hi.toNat_lt
  have := lo.toNat_lt
  rw [beWord]
  omega

theorem beWords_le : ∀ (bs : List UInt8), ∀ w ∈ beWords bs, w ≤ 65535
  | [], _, h => by cases h
  | [hi], w, h => by
    obtain rfl := List.mem_singleton.mp h
    exact beWord_le hi 0
  | hi :: lo :: rest, w, h => by
    rcases List.mem_cons.mp h with rfl | h
    · exact beWord_le hi lo
    · exact beWords_le rest w h

/-- Words are split at even offsets. -/
theorem beWords_append : ∀ {bs : List UInt8} (cs : List UInt8), Even bs.length →
    beWords (bs ++ cs) = beWords bs ++ beWords cs
  | [], _, _ => rfl
  | [_], _, h => by simp at h
  | hi :: lo :: rest, cs, h => by
    have hrest : Even rest.length := by
      rw [List.length_cons, List.length_cons, Nat.add_assoc] at h
      exact (Nat.even_add.mp h).mpr even_two
    rw [List.cons_append, List.cons_append, beWords, beWords, beWords_append cs hrest,
      List.cons_append]

theorem beSum_append {bs : List UInt8} (cs : List UInt8) (h : Even bs.length) :
    beSum (bs ++ cs) = beSum bs + beSum cs := by
  rw [beSum, beWords_append cs h, List.sum_append, beSum, beSum]

theorem beSum_le : ∀ bs : List UInt8, beSum bs ≤ 65535 * ((bs.length + 1) / 2)
  | [] => by simp
  | [hi] => by
    rw [beSum_singleton]
    exact le_trans (beWord_le hi 0) (by simp)
  | hi :: lo :: rest => by
    have hw := beWord_le hi lo
    have ih := beSum_le rest
    rw [beSum_cons_cons, List.length_cons, List.length_cons]
    omega

/-- A word in network order reads back as its value. -/
theorem beSum_network16 (v : UInt16) : beSum (ByteOrder.network16 v) = v.toNat := by
  have hv : v.toNat < 65536 := v.toNat_lt
  rw [ByteOrder.network16, beSum_cons_cons, beSum_nil, beWord, UInt8.toNat_ofNat',
    UInt8.toNat_ofNat']
  omega

/-- A stored word in network order, read back from its two bytes. -/
theorem beWord_write_network16 (m : Mem) (a : ℕ) (v : UInt16) :
    beWord (m.write a (ByteOrder.network16 v) a) (m.write a (ByteOrder.network16 v) (a + 1)) =
      v.toNat := by
  have h0 : m.write a (ByteOrder.network16 v) a = (ByteOrder.network16 v)[0] :=
    Mem.write_inside (i := 0) (by simp)
  have h1 : m.write a (ByteOrder.network16 v) (a + 1) = (ByteOrder.network16 v)[1] :=
    Mem.write_inside (by simp)
  rw [h0, h1, ← beSum_network16 v]
  rfl

/-- Writing one word at an even offset of a range: what the words of the range
add up to afterwards. -/
theorem beSum_bytes_write {m : Mem} {a k n : ℕ} {bs : List UInt8} (hbs : bs.length = 2)
    (hk : Even k) (hn : k + 2 ≤ n) :
    beSum ((m.write (a + k) bs).bytes a n) =
      beSum (m.bytes a k) + beSum bs + beSum (m.bytes (a + k + 2) (n - k - 2)) := by
  have hself : (m.write (a + k) bs).bytes (a + k) 2 = bs := by
    rw [← hbs, Mem.bytes_write_self]
  have hsplit : n = k + (2 + (n - k - 2)) := by omega
  rw [hsplit, Mem.bytes_add, Mem.bytes_add, beSum_append _ (by rw [Mem.length_bytes]; exact hk),
    beSum_append _ (by rw [Mem.length_bytes]; exact even_two), hself,
    Mem.bytes_write_of_disjoint (by omega), Mem.bytes_write_of_disjoint (by omega), ← hsplit,
    ← Nat.add_assoc (beSum (m.bytes a k))]

/-- Overwriting a word: its old value leaves the sum and the new one enters. -/
theorem beSum_bytes_rewrite {m : Mem} {a k n : ℕ} {bs cs : List UInt8} (hbs : bs.length = 2)
    (hcs : cs.length = 2) (hk : Even k) (hn : k + 2 ≤ n) :
    beSum (((m.write (a + k) bs).write (a + k) cs).bytes a n) + beSum bs =
      beSum ((m.write (a + k) bs).bytes a n) + beSum cs := by
  rw [beSum_bytes_write hcs hk hn, beSum_bytes_write hbs hk hn,
    Mem.bytes_write_of_disjoint (by omega), Mem.bytes_write_of_disjoint (by omega)]
  omega

end Bytes
