import Mathlib.Logic.Equiv.Defs
import Mathlib.Tactic.Ring

/-!
# Fixed-width byte codecs

A codec writes every value of a type as a list of bytes of one fixed length, and reads every
list of that length back. The two directions are inverse to each other, so a stream of encoded
values is determined by its bytes and by the types read from it.

## Main definitions

* `leBytes w n`, `leValue bs`: little-endian bytes of a number, and the number of some bytes
* `Codec α`: a fixed-width codec, carrying its laws
* `Codec.uint8`, `Codec.int8`, `Codec.uint32`: the machine integers, little-endian
* `Codec.pair`, `Codec.map`: packed records

## Main results

* `leValue_leBytes`, `leBytes_leValue`: the two little-endian directions are inverse
* `Codec.encode_injective`, `Codec.encode_eq_iff`: the bytes determine the value
* `Codec.decode_take_append`: reading the front of a stream
* `Codec.getElem?_of_aligned`: reading a stream at a multiple of the width
-/

namespace Foundation

/-! ## Little-endian numbers -/

/-- The `w` low bytes of `n`, least significant first. -/
def leBytes : ℕ → ℕ → List UInt8
  | 0, _ => []
  | w + 1, n => UInt8.ofNat n :: leBytes w (n / 256)

/-- The number whose little-endian bytes are `bs`. -/
def leValue : List UInt8 → ℕ
  | [] => 0
  | b :: bs => b.toNat + 256 * leValue bs

@[simp] theorem length_leBytes (w n : ℕ) : (leBytes w n).length = w := by
  induction w generalizing n with
  | zero => rfl
  | succ w ih => simp [leBytes, ih]

theorem leValue_lt (bs : List UInt8) : leValue bs < 256 ^ bs.length := by
  induction bs with
  | nil => simp [leValue]
  | cons b bs ih =>
    have hb : b.toNat < 256 := b.toNat_lt
    simp only [leValue, List.length_cons, pow_succ]
    omega

theorem leValue_leBytes (w n : ℕ) : leValue (leBytes w n) = n % 256 ^ w := by
  induction w generalizing n with
  | zero => simp [leBytes, leValue, Nat.mod_one]
  | succ w ih =>
    have hn : (UInt8.ofNat n).toNat = n % 256 := UInt8.toNat_ofNat'
    rw [leBytes, leValue, ih, hn, pow_succ', Nat.mod_mul]

theorem leBytes_leValue (bs : List UInt8) : leBytes bs.length (leValue bs) = bs := by
  induction bs with
  | nil => rfl
  | cons b bs ih =>
    have hb : b.toNat < 256 := b.toNat_lt
    have hq : (b.toNat + 256 * leValue bs) / 256 = leValue bs := by omega
    have hr : UInt8.ofNat (b.toNat + 256 * leValue bs) = b := by
      apply UInt8.toNat_inj.mp
      rw [UInt8.toNat_ofNat']
      omega
    simp only [List.length_cons, leValue, leBytes, hq, hr, ih]

/-! ## Codecs -/

/-- A fixed-width codec: `encode` and `decode` are inverse to each other between the values of
`α` and the byte lists of length `size`. -/
structure Codec (α : Type*) where
  /-- The number of bytes of an encoded value. -/
  size : ℕ
  /-- The bytes of a value. -/
  encode : α → List UInt8
  /-- The value of some bytes; only lists of length `size` are meaningful. -/
  decode : List UInt8 → α
  length_encode : ∀ a, (encode a).length = size
  decode_encode : ∀ a, decode (encode a) = a
  encode_decode : ∀ bs, bs.length = size → encode (decode bs) = bs

namespace Codec

variable {α β : Type*} (c : Codec α) (d : Codec β)

attribute [simp] length_encode decode_encode

theorem encode_injective : Function.Injective c.encode := fun a b h => by
  rw [← c.decode_encode a, h, c.decode_encode]

theorem encode_eq_iff {a : α} {bs : List UInt8} (h : bs.length = c.size) :
    c.encode a = bs ↔ a = c.decode bs := by
  constructor
  · rintro rfl
    exact (c.decode_encode a).symm
  · rintro rfl
    exact c.encode_decode bs h

/-- The value at the front of a stream is read back, whatever follows it. -/
theorem decode_take_append (a : α) (rest : List UInt8) :
    c.decode ((c.encode a ++ rest).take c.size) = a := by
  rw [List.take_left' (c.length_encode a), c.decode_encode]

theorem drop_append (a : α) (rest : List UInt8) :
    (c.encode a ++ rest).drop c.size = rest :=
  List.drop_left' (c.length_encode a)

/-- Reading a value off the front of a stream leaves the rest of the stream. -/
theorem encode_decode_take {bs : List UInt8} (h : c.size ≤ bs.length) :
    c.encode (c.decode (bs.take c.size)) = bs.take c.size :=
  c.encode_decode _ (by simp [h])

/-! ### Streams of values -/

/-- The bytes of a sequence of values. -/
def encodeAll (as : List α) : List UInt8 := as.flatMap c.encode

@[simp] theorem encodeAll_nil : c.encodeAll [] = [] := rfl

@[simp] theorem encodeAll_cons (a : α) (as : List α) :
    c.encodeAll (a :: as) = c.encode a ++ c.encodeAll as := rfl

theorem encodeAll_append (as bs : List α) :
    c.encodeAll (as ++ bs) = c.encodeAll as ++ c.encodeAll bs :=
  List.flatMap_append

theorem encodeAll_snoc (as : List α) (a : α) :
    c.encodeAll (as ++ [a]) = c.encodeAll as ++ c.encode a := by
  rw [encodeAll_append, encodeAll_cons, encodeAll_nil, List.append_nil]

@[simp] theorem length_encodeAll (as : List α) :
    (c.encodeAll as).length = c.size * as.length := by
  induction as with
  | nil => rfl
  | cons a as ih =>
    rw [encodeAll_cons, List.length_append, c.length_encode, ih, List.length_cons]
    ring

theorem drop_encodeAll (n : ℕ) (as : List α) :
    (c.encodeAll as).drop (c.size * n) = c.encodeAll (as.drop n) := by
  induction n generalizing as with
  | zero => simp
  | succ n ih =>
    cases as with
    | nil => simp
    | cons a as =>
      rw [Nat.mul_succ, Nat.add_comm, ← List.drop_drop, encodeAll_cons, c.drop_append, ih,
        List.drop_succ_cons]

theorem take_encodeAll (n : ℕ) (as : List α) :
    (c.encodeAll as).take (c.size * n) = c.encodeAll (as.take n) := by
  have hsplit : c.encodeAll as = c.encodeAll (as.take n) ++ c.encodeAll (as.drop n) := by
    rw [← encodeAll_append, List.take_append_drop]
  rw [← drop_encodeAll] at hsplit
  -- both fronts are followed by what is dropped
  have hfronts : (c.encodeAll as).take (c.size * n) ++ (c.encodeAll as).drop (c.size * n) =
      c.encodeAll (as.take n) ++ (c.encodeAll as).drop (c.size * n) := by
    rw [List.take_append_drop]
    exact hsplit
  exact List.append_cancel_right hfronts

/-- What is found in a stream at a multiple of the width begins with the value of that place. -/
theorem exists_of_aligned {pre mid : List UInt8} {as : List α} {n : ℕ} (hmid : mid ≠ [])
    (h : pre ++ mid <+: c.encodeAll as) (hn : pre.length = c.size * n) :
    ∃ a, as[n]? = some a ∧ mid <+: c.encode a ++ c.encodeAll (as.drop (n + 1)) := by
  -- drop everything before the place
  have hdrop : mid <+: c.encodeAll (as.drop n) := by
    obtain ⟨tail, htail⟩ := h
    refine ⟨tail, ?_⟩
    rw [← c.drop_encodeAll, ← htail, ← hn, List.append_assoc, List.drop_left]
  cases hrest : as.drop n with
  | nil =>
    rw [hrest, encodeAll_nil, List.prefix_nil] at hdrop
    exact absurd hdrop hmid
  | cons a rest =>
    have hrest' : as.drop (n + 1) = rest := by
      rw [← List.drop_drop, hrest, List.drop_one, List.tail_cons]
    refine ⟨a, ?_, ?_⟩
    · rw [← List.head?_drop, hrest, List.head?_cons]
    · rw [hrest, encodeAll_cons] at hdrop
      rw [hrest']
      exact hdrop

variable {c d}

/-- Two values at the front of one list of bytes are the same value. -/
theorem eq_of_encode_append {a b : α} {rest tail : List UInt8}
    (h : c.encode a ++ rest <+: c.encode b ++ tail) : a = b ∧ rest <+: tail := by
  obtain ⟨more, hmore⟩ := h
  rw [List.append_assoc] at hmore
  have hlen : (c.encode a).length = (c.encode b).length := by simp
  exact ⟨c.encode_injective (List.append_inj_left hmore hlen),
    more, List.append_inj_right hmore hlen⟩

theorem encode_append_ne_nil (hc : 0 < c.size) (a : α) (rest : List UInt8) :
    c.encode a ++ rest ≠ [] := by
  intro h
  have hlen := congrArg List.length h
  rw [List.length_append, c.length_encode, List.length_nil] at hlen
  omega

/-- **Alignment.** A value found in a stream at a multiple of the width is the value of that
place. -/
theorem getElem?_of_aligned (hc : 0 < c.size) {pre rest : List UInt8} {as : List α} {a : α}
    {n : ℕ} (h : pre ++ (c.encode a ++ rest) <+: c.encodeAll as) (hn : pre.length = c.size * n) :
    as[n]? = some a := by
  obtain ⟨b, hb, hpre⟩ := c.exists_of_aligned (encode_append_ne_nil hc a rest) h hn
  rw [hb, (eq_of_encode_append hpre).1]

variable (c d)

/-! ### Machine integers -/

/-- One byte. -/
def uint8 : Codec UInt8 where
  size := 1
  encode b := [b]
  decode bs := bs.headD 0
  length_encode _ := rfl
  decode_encode _ := rfl
  encode_decode bs h := by
    obtain ⟨b, rfl⟩ := List.length_eq_one_iff.mp h
    rfl

/-- One byte, read as a two's complement number. -/
def int8 : Codec Int8 where
  size := 1
  encode i := [i.toUInt8]
  decode bs := (bs.headD 0).toInt8
  length_encode _ := rfl
  decode_encode i := by simp
  encode_decode bs h := by
    obtain ⟨b, rfl⟩ := List.length_eq_one_iff.mp h
    simp

/-- Four bytes, least significant first. -/
def uint32 : Codec UInt32 where
  size := 4
  encode n := leBytes 4 n.toNat
  decode bs := UInt32.ofNat (leValue bs)
  length_encode _ := length_leBytes _ _
  decode_encode n := by
    rw [leValue_leBytes, Nat.mod_eq_of_lt (by simpa using n.toNat_lt), UInt32.ofNat_toNat]
  encode_decode bs h := by
    have hlt : leValue bs < 2 ^ 32 := by
      have := leValue_lt bs
      rw [h] at this
      simpa using this
    rw [UInt32.toNat_ofNat', Nat.mod_eq_of_lt hlt, ← h, leBytes_leValue]

/-! ### Packed records -/

/-- Two values side by side, without padding. -/
def pair : Codec (α × β) where
  size := c.size + d.size
  encode p := c.encode p.1 ++ d.encode p.2
  decode bs := (c.decode (bs.take c.size), d.decode (bs.drop c.size))
  length_encode p := by simp
  decode_encode p := by rw [c.decode_take_append, c.drop_append, d.decode_encode]
  encode_decode bs h := by
    rw [c.encode_decode_take (by omega), d.encode_decode _ (by simp [h]), List.take_append_drop]

@[simp] theorem size_pair : (c.pair d).size = c.size + d.size := rfl

@[simp] theorem encode_pair (a : α) (b : β) :
    (c.pair d).encode (a, b) = c.encode a ++ d.encode b := rfl

/-- The first half of a pair is found where the pair begins. -/
theorem getElem?_fst_of_aligned {c : Codec α} {d : Codec β} (hc : 0 < c.size)
    {pre rest : List UInt8} {as : List (α × β)} {a : α} {n : ℕ}
    (h : pre ++ (c.encode a ++ rest) <+: (c.pair d).encodeAll as)
    (hn : pre.length = (c.size + d.size) * n) : ∃ b, as[n]? = some (a, b) := by
  obtain ⟨⟨a', b⟩, hab, hpre⟩ :=
    (c.pair d).exists_of_aligned (encode_append_ne_nil hc a rest) h hn
  rw [encode_pair, List.append_assoc] at hpre
  obtain ⟨rfl, -⟩ := eq_of_encode_append hpre
  exact ⟨b, hab⟩

/-- The second half of a pair is found where the first half ends. -/
theorem getElem?_snd_of_aligned {c : Codec α} {d : Codec β} (hd : 0 < d.size)
    {pre rest : List UInt8} {as : List (α × β)} {b : β} {n : ℕ}
    (h : pre ++ (d.encode b ++ rest) <+: (c.pair d).encodeAll as)
    (hn : pre.length = (c.size + d.size) * n + c.size) : ∃ a, as[n]? = some (a, b) := by
  -- the bytes before the second half end with those of the first
  have hfirst : (pre.drop ((c.size + d.size) * n)).length = c.size := by
    rw [List.length_drop]
    omega
  rw [← List.take_append_drop ((c.size + d.size) * n) pre, List.append_assoc] at h
  have hne : pre.drop ((c.size + d.size) * n) ++ (d.encode b ++ rest) ≠ [] := by
    intro hnil
    exact encode_append_ne_nil hd b rest (List.append_eq_nil_iff.mp hnil).2
  have htake : (pre.take ((c.size + d.size) * n)).length = (c.pair d).size * n := by
    rw [List.length_take, size_pair]
    omega
  obtain ⟨⟨a, b'⟩, hab, hpre⟩ := (c.pair d).exists_of_aligned hne h htake
  rw [encode_pair, List.append_assoc, ← c.encode_decode _ hfirst] at hpre
  obtain ⟨rfl, -⟩ := eq_of_encode_append (eq_of_encode_append hpre).2
  exact ⟨a, hab⟩

/-- The same bytes, for a type in bijection with `α`. -/
def map (e : α ≃ β) : Codec β where
  size := c.size
  encode b := c.encode (e.symm b)
  decode bs := e (c.decode bs)
  length_encode b := c.length_encode _
  decode_encode b := by rw [c.decode_encode, e.apply_symm_apply]
  encode_decode bs h := by rw [e.symm_apply_apply, c.encode_decode bs h]

@[simp] theorem size_uint8 : uint8.size = 1 := rfl
@[simp] theorem size_int8 : int8.size = 1 := rfl
@[simp] theorem size_uint32 : uint32.size = 4 := rfl
@[simp] theorem size_map (e : α ≃ β) : (c.map e).size = c.size := rfl

end Codec

end Foundation
