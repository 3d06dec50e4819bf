/-
# Hashing to the scalar field, in memory

`FROST.sol` computes `expand_message_xmd`, `hash_to_field` and the tagged hash in assembly, over
buffers it lays out by hand and patches in place.  This module runs that assembly over a byte
memory and proves that what it leaves behind is what the RFC says, a function of byte strings.

The scratch buffer is the point of interest: the first digest is written over the tail of the
message and its length, right before the index byte, so that the message of every later block
is the same window with two parts patched.  `Scratch` says what of that buffer and of the output
is settled when a block is computed; everything else is a frame.

An address is a natural number.  Memory near the end of the address space cannot be paid for,
so no address the code computes from a pointer into allocated memory wraps (`Layout.room`).
-/
import Safenet.Contracts.Secp256k1
import Safenet.Lib.Cells

namespace Safenet

open Cells

/-! ## 1. Memory -/

/-- The memory of one call. -/
abbrev Memory : Type := Nat → UInt8

/-- `mload`. -/
def mload (m : Memory) (p : Nat) : Nat := beNat (read m p 32)

/-- `mstore`. -/
def mstore (m : Memory) (p v : Nat) : Memory := write m p (beBytes 32 v)

/-- `mstore8`. -/
def mstore8 (m : Memory) (p v : Nat) : Memory := write m p [UInt8.ofNat v]

/-- `mcopy`. -/
def mcopy (m : Memory) (dst src len : Nat) : Memory := write m dst (read m src len)

/-- `_sha256`: the precompile hashes a window and writes the digest. -/
def sha256 (H : Bytes → B256) (m : Memory) (inputPtr inputLen outputPtr : Nat) : Memory :=
  write m outputPtr (B256.toBytes (H (read m inputPtr inputLen)))

/-- A `bytes memory` at `p`: its length, then its bytes. -/
structure BytesAt (m : Memory) (p : Nat) (bytes : Bytes) : Prop where
  length : mload m p = bytes.length
  bytes : read m (p + 0x20) bytes.length = bytes

section Memory

variable {m m' : Memory} {p q v n lo hi : Nat}

theorem mload_lt (m : Memory) (p : Nat) : mload m p < 2 ^ 256 := by
  have hlt := beNat_lt (read m p 32)
  rwa [length_read] at hlt

theorem beBytes_mload (m : Memory) (p : Nat) : beBytes 32 (mload m p) = read m p 32 :=
  beBytes_beNat (length_read m p 32)

theorem read_mstore (m : Memory) (p v : Nat) (hn : n ≤ 32) :
    read (mstore m p v) p n = (beBytes 32 v).take n :=
  read_write m p _ (by rwa [length_beBytes])

theorem read_mstore_word (m : Memory) (p v : Nat) : read (mstore m p v) p 32 = beBytes 32 v := by
  rw [read_mstore m p v le_rfl, List.take_of_length_le (by rw [length_beBytes])]

theorem mload_mstore (m : Memory) (p : Nat) (hv : v < 2 ^ 256) : mload (mstore m p v) p = v := by
  rw [mload, read_mstore_word, beNat_beBytes]
  exact Nat.mod_eq_of_lt hv

theorem read_mstore8 (m : Memory) (p v : Nat) : read (mstore8 m p v) p 1 = beBytes 1 v :=
  (read_write_self m p [UInt8.ofNat v]).trans (by rw [beBytes_succ, pow_zero, Nat.div_one]; rfl)

theorem read_mcopy (m : Memory) (dst src len : Nat) :
    read (mcopy m dst src len) dst len = read m src len := by
  have hself := read_write_self m dst (read m src len)
  rwa [length_read] at hself

theorem read_sha256 (H : Bytes → B256) (m : Memory) (inputPtr inputLen outputPtr : Nat) :
    read (sha256 H m inputPtr inputLen outputPtr) outputPtr 32 =
      B256.toBytes (H (read m inputPtr inputLen)) := by
  have hself := read_write_self m outputPtr (B256.toBytes (H (read m inputPtr inputLen)))
  rwa [B256.length_toBytes] at hself

theorem mstore_keeps (m : Memory) (p v : Nat) : KeepsOutside m (mstore m p v) p (p + 32) := by
  have hw := KeepsOutside.write m p (beBytes 32 v)
  rwa [length_beBytes] at hw

theorem mstore8_keeps (m : Memory) (p v : Nat) : KeepsOutside m (mstore8 m p v) p (p + 1) :=
  KeepsOutside.write m p [UInt8.ofNat v]

theorem mcopy_keeps (m : Memory) (dst src len : Nat) :
    KeepsOutside m (mcopy m dst src len) dst (dst + len) := by
  have hw := KeepsOutside.write m dst (read m src len)
  rwa [length_read] at hw

theorem sha256_keeps (H : Bytes → B256) (m : Memory) (inputPtr inputLen outputPtr : Nat) :
    KeepsOutside m (sha256 H m inputPtr inputLen outputPtr) outputPtr (outputPtr + 32) := by
  have hw := KeepsOutside.write m outputPtr (B256.toBytes (H (read m inputPtr inputLen)))
  rwa [B256.length_toBytes] at hw

/-- A word beside the range is the same. -/
theorem mload_eq (h : KeepsOutside m m' lo hi) (hp : p + 32 ≤ lo ∨ hi ≤ p) :
    mload m' p = mload m p := by
  rw [mload, h.read_eq hp, ← mload]

/-- A byte string beside the range is the same. -/
theorem BytesAt.keep {bytes : Bytes} (hb : BytesAt m p bytes) (h : KeepsOutside m m' lo hi)
    (hp : p + 0x20 + bytes.length ≤ lo ∨ hi ≤ p) : BytesAt m' p bytes where
  length := (mload_eq h (hp.imp (by omega) id)).trans hb.length
  bytes := (h.read_eq (hp.imp id (by omega))).trans hb.bytes

end Memory

/-! ## 2. The RFC, on byte strings -/

namespace RFC9380

/-- `strxor`. -/
def strxor (a b : Bytes) : Bytes := List.zipWith (· ^^^ ·) a b

/-- `DST_prime`: the tag and its length. -/
def dstPrime (dst : Bytes) : Bytes := dst ++ beBytes 1 dst.length

/-- `msg_prime`. -/
def msgPrime (msg dst : Bytes) (len : Nat) : Bytes :=
  beBytes 64 0 ++ msg ++ beBytes 2 len ++ beBytes 1 0 ++ dstPrime dst

/-- `b_0`. -/
def b0 (H : Bytes → B256) (msg dst : Bytes) (len : Nat) : Bytes :=
  B256.toBytes (H (msgPrime msg dst len))

/-- `b_i`, from `b_1` on. -/
def block (H : Bytes → B256) (msg dst : Bytes) (len : Nat) : Nat → Bytes
  | 0 => b0 H msg dst len
  | 1 => B256.toBytes (H (b0 H msg dst len ++ beBytes 1 1 ++ dstPrime dst))
  | i + 2 => B256.toBytes (H (strxor (b0 H msg dst len) (block H msg dst len (i + 1)) ++
      beBytes 1 (i + 2) ++ dstPrime dst))

/-- `expand_message_xmd`, section 5.3.1, with a hash of 32 bytes. -/
def expandMessageXmd (H : Bytes → B256) (msg dst : Bytes) (len : Nat) : Option Bytes :=
  let ell := (len + 31) / 32
  if ell > 255 ∨ len > 65535 ∨ dst.length > 255 then none
  else some (((List.range ell).flatMap fun i => block H msg dst len (i + 1)).take len)

/-- `hash_to_field`, section 5.2, for one element of the scalar field and 48 bytes. -/
def hashToField (H : Bytes → B256) (msg dst : Bytes) : Option Nat :=
  (expandMessageXmd H msg dst 48).map fun uniform => beNat uniform % Secp256k1.N

theorem length_b0 (H : Bytes → B256) (msg dst : Bytes) (len : Nat) :
    (b0 H msg dst len).length = 32 := B256.length_toBytes _

theorem length_block (H : Bytes → B256) (msg dst : Bytes) (len i : Nat) :
    (block H msg dst len i).length = 32 := by
  unfold block
  split <;> exact B256.length_toBytes _

theorem length_blocks (H : Bytes → B256) (msg dst : Bytes) (len n : Nat) :
    ((List.range n).flatMap fun i => block H msg dst len (i + 1)).length = 32 * n := by
  induction n with
  | zero => rfl
  | succ n ih =>
    rw [List.range_succ, List.flatMap_append, List.length_append, ih, List.flatMap_singleton,
      length_block]
    omega

/-- A block after the first hashes the one before it. -/
theorem block_succ (H : Bytes → B256) (msg dst : Bytes) (len : Nat) {i : Nat} (hi : 2 ≤ i) :
    block H msg dst len i =
      B256.toBytes (H (strxor (b0 H msg dst len) (block H msg dst len (i - 1)) ++
        beBytes 1 i ++ dstPrime dst)) := by
  obtain ⟨k, rfl⟩ := Nat.exists_eq_add_of_le' hi
  rfl

/-- The bitwise exclusive or of two words is that of their bytes. -/
theorem beBytes_xor (len a b : Nat) :
    beBytes len (a ^^^ b) = strxor (beBytes len a) (beBytes len b) := by
  rw [strxor, beBytes, beBytes, beBytes, List.zipWith_map, List.zipWith_self]
  refine List.map_congr_left fun i _ => ?_
  have hpow : 256 ^ (len - 1 - i) = 2 ^ (8 * (len - 1 - i)) := by rw [Nat.pow_mul]
  rw [hpow, Nat.xor_div_two_pow, UInt8.ofNat_xor]

end RFC9380

/-! ## 3. The assembly -/

namespace FROST

/-- A domain tag packed into a word, with its length as the final byte. -/
def packTag (tag : Bytes) : Nat :=
  beNat (tag ++ List.replicate (31 - tag.length) 0 ++ [UInt8.ofNat tag.length])

/-- The message `expand_message_xmd` hashes first, written from `prime` on: the memory, the
pointer behind the index byte, and the end of the message. -/
def layPrime (m : Memory) (prime message dst len : Nat) : Memory × Nat × Nat :=
  let ptr := prime
  let m := mstore m ptr 0
  let ptr := ptr + 0x20
  let m := mstore m ptr 0
  let ptr := ptr + 0x20
  let m := mcopy m ptr (message + 0x20) (mload m message)
  let ptr := ptr + mload m message
  let m := mstore m ptr (len <<< 240)
  let ptr := ptr + 0x03
  let index := ptr
  let m := mstore m ptr dst
  let dstLen := dst % 256
  let ptr := ptr + dstLen
  let m := mstore8 m ptr dstLen
  let ptr := ptr + 0x01
  (m, index, ptr)

/-- One turn of the loop: block `i` from the one before it. -/
def xmdStep (H : Bytes → B256) (uniform bPtr iPtr bLen b0 : Nat) (m : Memory) (i : Nat) : Memory :=
  let uPtr := uniform + (i <<< 5)
  let m := mstore m bPtr (b0 ^^^ mload m (uPtr - 0x20))
  let m := mstore8 m iPtr i
  sha256 H m bPtr bLen uPtr

/-- The loop over the blocks after the first. -/
def xmdLoop (H : Bytes → B256) (uniform bPtr iPtr bLen b0 : Nat) (m : Memory) (i len : Nat) :
    Memory :=
  if 0x20 < len then
    xmdLoop H uniform bPtr iPtr bLen b0 (xmdStep H uniform bPtr iPtr bLen b0 m i) (i + 1) (len - 32)
  else m
termination_by len

/-- `_expandMessageXmd`: the memory it leaves and the pointer it returns. -/
def expandMessageXmd (H : Bytes → B256) (m : Memory) (message dst len : Nat) :
    Option (Memory × Nat) :=
  if len ≤ 8160 then
    let uniform := mload m 0x40
    let m := mstore m 0x40 (uniform + ((0x3f + len) &&& 0xffe0))
    let m := mstore m uniform len
    let prime := mload m 0x40
    let (m, index, ptr) := layPrime m prime message dst len
    let bPtr := index - 0x21
    let iPtr := index - 0x01
    let bLen := ptr - bPtr
    let m := sha256 H m prime (ptr - prime) bPtr
    let b0 := mload m bPtr
    let m := mstore8 m iPtr 1
    let m := sha256 H m bPtr bLen (uniform + 0x20)
    some (xmdLoop H uniform bPtr iPtr bLen b0 m 2 len, uniform)
  else none

/-- `_hashToField`. -/
def hashToField (H : Bytes → B256) (m : Memory) (message dst : Nat) : Option (Memory × Nat) := do
  let (m, uniform) ← expandMessageXmd H m message dst 48
  let e := mload m (uniform + 0x20) * 0x100000000000000000000000000000000 % Secp256k1.N
  let e := (e + mload m (uniform + 0x40) >>> 128) % Secp256k1.N
  return (m, e)

/-- `_hash`. -/
def hash (H : Bytes → B256) (m : Memory) (input dst : Nat) : Memory × Nat :=
  let dstLen := dst % 256
  let dstOffset := 32 - dstLen
  let len := mload m input
  let m := mstore m input (dst >>> (dstOffset <<< 3))
  let m := sha256 H m (input + dstOffset) (len + dstLen) 0x00
  let digest := mload m 0x00
  (mstore m input len, digest)

/-! ## 4. Packed tags -/

theorem beNat_replicate_zero (n : Nat) : beNat (List.replicate n 0) = 0 := by
  induction n with
  | zero => rfl
  | succ n ih => rw [List.replicate_succ, ← List.singleton_append, beNat_append, ih]; simp [beNat]

section Tags

variable {tag : Bytes}

theorem beBytes_packTag (htag : tag.length ≤ 31) :
    beBytes 32 (packTag tag) =
      tag ++ List.replicate (31 - tag.length) 0 ++ [UInt8.ofNat tag.length] :=
  beBytes_beNat (by simp; omega)

/-- `byte(31, dst)`: the length of the tag. -/
theorem packTag_mod (htag : tag.length ≤ 31) : packTag tag % 256 = tag.length := by
  have hlt : tag.length < 256 := by omega
  rw [packTag, beNat_append, beNat_singleton, List.length_singleton, pow_one,
    Nat.mul_add_mod_self_right, UInt8.toNat_ofNat_of_lt' hlt, Nat.mod_eq_of_lt hlt]

/-- The tag's own bytes are the high bytes of the word. -/
theorem packTag_shiftRight (htag : tag.length ≤ 31) :
    packTag tag >>> ((32 - tag.length) <<< 3) = beNat tag := by
  have hpad : (List.replicate (31 - tag.length) (0 : UInt8) ++
      [UInt8.ofNat tag.length]).length = 32 - tag.length := by simp; omega
  have hpow : 2 ^ ((32 - tag.length) * 2 ^ 3) = 256 ^ (32 - tag.length) := by
    rw [Nat.mul_comm, pow_mul]
    rfl
  rw [packTag, List.append_assoc, Nat.shiftRight_eq_div_pow, Nat.shiftLeft_eq, hpow, ← hpad,
    beNat_append_div]

end Tags

/-! ## 5. The scratch buffer -/

section Buffer

variable {H : Bytes → B256} {m : Memory} {msg tag : Bytes} {message prime len : Nat}

/-- The length word begins with the two bytes of the length and the zero that the index byte
replaces later. -/
theorem beBytes_length_word (len : Nat) :
    (beBytes 32 (len <<< 240)).take 3 = beBytes 2 len ++ beBytes 1 0 := by
  have hhigh : len <<< 240 / 256 ^ 31 = len / 256 := by
    rw [Nat.shiftLeft_eq]
    exact Nat.mul_div_mul_right len 256 (by positivity : 0 < 2 ^ 240)
  have hlow : len <<< 240 / 256 ^ 30 = len := by
    rw [Nat.shiftLeft_eq]
    exact Nat.mul_div_cancel _ (by positivity)
  have hzero : len <<< 240 / 256 ^ 29 = len * 256 := by
    rw [Nat.shiftLeft_eq, show 2 ^ 240 = 256 * 256 ^ 29 from rfl, ← Nat.mul_assoc]
    exact Nat.mul_div_cancel _ (by positivity)
  have hbyte : UInt8.ofNat (len * 256) = 0 := by
    rw [← UInt8.toNat_inj, UInt8.toNat_ofNat', Nat.mul_mod_left]
    rfl
  rw [beBytes_succ, beBytes_succ, beBytes_succ, hhigh, hlow, hzero, hbyte, beBytes_succ 1,
    beBytes_succ 0, pow_one, pow_zero, Nat.div_one]
  rfl

/-- The first message, its pointers and what writing it leaves alone. -/
theorem layPrime_spec (prime len : Nat) (hmsg : BytesAt m message msg)
    (hbelow : message + 0x20 + msg.length ≤ prime) (htag : tag.length ≤ 31) :
    ∃ m', layPrime m prime message (packTag tag) len =
        (m', prime + 0x43 + msg.length, prime + 0x44 + msg.length + tag.length) ∧
      read m' prime (0x44 + msg.length + tag.length) = RFC9380.msgPrime msg tag len ∧
      KeepsOutside m m' prime (prime + 0x63 + msg.length) := by
  unfold layPrime
  rw [packTag_mod htag]
  dsimp only
  set n := msg.length
  set top := prime + 0x63 + n
  set m₁ := mstore m prime 0
  set m₂ := mstore m₁ (prime + 0x20) 0
  have k₁ : KeepsOutside m m₁ prime (prime + 0x20) := mstore_keeps m prime 0
  have k₂ : KeepsOutside m₁ m₂ (prime + 0x20) (prime + 0x40) := mstore_keeps m₁ (prime + 0x20) 0
  have hmsg₂ : BytesAt m₂ message msg :=
    (hmsg.keep k₁ (Or.inl hbelow)).keep k₂ (Or.inl (by omega))
  rw [hmsg₂.length]
  set m₃ := mcopy m₂ (prime + 0x20 + 0x20) (message + 0x20) n
  have k₃ : KeepsOutside m₂ m₃ (prime + 0x40) (prime + 0x40 + n) := mcopy_keeps m₂ _ _ n
  rw [(hmsg₂.keep k₃ (Or.inl (by omega))).length]
  set m₄ := mstore m₃ (prime + 0x20 + 0x20 + n) (len <<< 240)
  set m₅ := mstore m₄ (prime + 0x20 + 0x20 + n + 0x03) (packTag tag)
  set m₆ := mstore8 m₅ (prime + 0x20 + 0x20 + n + 0x03 + tag.length) tag.length
  -- what each later write leaves of the part written before it
  have k₆ : KeepsOutside m₅ m₆ (prime + 0x43 + n + tag.length) top :=
    (mstore8_keeps m₅ _ _).mono (by omega) (by omega)
  have k₅ : KeepsOutside m₄ m₆ (prime + 0x43 + n) top :=
    ((mstore_keeps m₄ _ _).mono (by omega) (by omega)).trans (k₆.mono (by omega) le_rfl)
  have k₄ : KeepsOutside m₃ m₆ (prime + 0x40 + n) top :=
    ((mstore_keeps m₃ _ _).mono (by omega) (by omega)).trans (k₅.mono (by omega) le_rfl)
  have k₃' : KeepsOutside m₂ m₆ (prime + 0x40) top :=
    (k₃.mono le_rfl (by omega)).trans (k₄.mono (by omega) le_rfl)
  have k₂' : KeepsOutside m₁ m₆ (prime + 0x20) top :=
    (k₂.mono le_rfl (by omega)).trans (k₃'.mono (by omega) le_rfl)
  have hpad : read m₆ prime 64 = beBytes 64 0 := by
    have hfirst : read m₆ prime 32 = beBytes 32 0 :=
      (k₂'.read_eq (Or.inl le_rfl)).trans (read_mstore_word m prime 0)
    have hsecond : read m₆ (prime + 32) 32 = beBytes 32 0 :=
      (k₃'.read_eq (Or.inl (by omega))).trans (read_mstore_word m₁ (prime + 32) 0)
    rw [show (64 : Nat) = 32 + 32 from rfl, read_add, hfirst, hsecond]
    decide
  have hcopy : read m₆ (prime + 64) n = msg := by
    rw [k₄.read_eq (Or.inl le_rfl)]
    exact (read_mcopy m₂ _ _ n).trans hmsg₂.bytes
  have hlength : read m₆ (prime + 64 + n) 3 = beBytes 2 len ++ beBytes 1 0 := by
    rw [k₅.read_eq (Or.inl (by omega))]
    exact (read_mstore m₃ _ _ (by omega)).trans (beBytes_length_word len)
  have htagged : read m₆ (prime + 64 + n + 3) tag.length = tag := by
    rw [k₆.read_eq (Or.inl (by omega))]
    refine (read_mstore m₄ _ _ (by omega)).trans ?_
    rw [beBytes_packTag htag, List.append_assoc, List.take_left]
  have hfinal : read m₆ (prime + 64 + n + 3 + tag.length) 1 = beBytes 1 tag.length :=
    read_mstore8 m₅ _ _
  have hframe : KeepsOutside m m₆ prime top :=
    (k₁.mono le_rfl (by omega)).trans (k₂'.mono (by omega) le_rfl)
  refine ⟨m₆, by congr 2 <;> omega, ?_, hframe⟩
  rw [show 0x44 + n + tag.length = 64 + n + 3 + tag.length + 1 by omega]
  simp only [read_add, ← Nat.add_assoc, hpad, hcopy, hlength, htagged, hfinal, RFC9380.msgPrime,
    RFC9380.dstPrime, List.append_assoc]

/-- The hashed window with the index byte patched in. -/
theorem read_mstore8_index (m : Memory) (bPtr i n : Nat) :
    read (mstore8 m (bPtr + 32) i) bPtr (33 + n) =
      read m bPtr 32 ++ beBytes 1 i ++ read m (bPtr + 33) n := by
  have hframe := mstore8_keeps m (bPtr + 32) i
  rw [show 33 + n = 32 + 1 + n from rfl, read_add, read_add, read_mstore8,
    hframe.read_eq (Or.inl le_rfl), hframe.read_eq (p := bPtr + (32 + 1)) (Or.inr le_rfl)]

/-- What is settled when block `i` is next: the tag behind the index byte of the scratch buffer
at `bPtr`, and the blocks before `i` in the output at `uniform`. -/
structure Scratch (H : Bytes → B256) (msg tag : Bytes) (len uniform bPtr : Nat) (m : Memory)
    (i : Nat) : Prop where
  behind : read m (bPtr + 33) (tag.length + 1) = RFC9380.dstPrime tag
  blocks : ∀ j, 1 ≤ j → j < i → read m (uniform + 32 * j) 32 = RFC9380.block H msg tag len j

namespace Scratch

variable {uniform bPtr i : Nat}

/-- A block is hashed out of the buffer and written behind the ones before it. -/
theorem step (h : Scratch H msg tag len uniform bPtr m i) (hi : 2 ≤ i)
    (hroom : uniform + 32 * (i + 1) ≤ bPtr) :
    let m' := xmdStep H uniform bPtr (bPtr + 32) (33 + (tag.length + 1))
      (beNat (RFC9380.b0 H msg tag len)) m i
    Scratch H msg tag len uniform bPtr m' (i + 1) ∧
      KeepsOutside m m' (uniform + 32 * i) (bPtr + 33) := by
  have huptr : uniform + (i <<< 5) = uniform + 32 * i := by rw [Nat.shiftLeft_eq]; omega
  have hprev : mload m (uniform + 32 * i - 0x20) =
      beNat (RFC9380.block H msg tag len (i - 1)) := by
    rw [mload, show uniform + 32 * i - 0x20 = uniform + 32 * (i - 1) by omega,
      h.blocks (i - 1) (by omega) (by omega)]
  unfold xmdStep
  rw [huptr]
  dsimp only
  rw [hprev]
  set m₁ := mstore m bPtr (beNat (RFC9380.b0 H msg tag len) ^^^
    beNat (RFC9380.block H msg tag len (i - 1))) with hm₁
  set m₂ := mstore8 m₁ (bPtr + 32) i
  set m₃ := sha256 H m₂ bPtr (33 + (tag.length + 1)) (uniform + 32 * i)
  have k₁ : KeepsOutside m m₁ bPtr (bPtr + 32) := mstore_keeps m bPtr _
  have k₂ : KeepsOutside m₁ m₂ (bPtr + 32) (bPtr + 33) := mstore8_keeps m₁ (bPtr + 32) i
  have k₁₂ : KeepsOutside m m₂ bPtr (bPtr + 33) :=
    (k₁.mono le_rfl (by omega)).trans (k₂.mono (by omega) le_rfl)
  have k₃ : KeepsOutside m₂ m₃ (uniform + 32 * i) (uniform + 32 * i + 32) :=
    sha256_keeps H m₂ _ _ _
  have hframe : KeepsOutside m m₃ (uniform + 32 * i) (bPtr + 33) :=
    (k₁₂.mono (by omega) le_rfl).trans (k₃.mono le_rfl (by omega))
  have hword : read m₁ bPtr 32 = RFC9380.strxor (RFC9380.b0 H msg tag len)
      (RFC9380.block H msg tag len (i - 1)) := by
    rw [hm₁, read_mstore_word, RFC9380.beBytes_xor, beBytes_beNat (RFC9380.length_b0 ..),
      beBytes_beNat (RFC9380.length_block ..)]
  have hblock : read m₃ (uniform + 32 * i) 32 = RFC9380.block H msg tag len i := by
    rw [read_sha256, read_mstore8_index, hword, k₁.read_eq (Or.inr (by omega)), h.behind,
      RFC9380.block_succ H msg tag len hi]
  refine ⟨⟨?_, fun j hj hlt => ?_⟩, hframe⟩
  · rw [hframe.read_eq (Or.inr le_rfl), h.behind]
  · rcases Nat.lt_succ_iff_lt_or_eq.mp hlt with hlt | rfl
    · rw [hframe.read_eq (Or.inl (by omega)), h.blocks j hj hlt]
    · exact hblock

/-- The loop writes the blocks that the rest of the length needs. -/
theorem loop (rest : Nat) (h : Scratch H msg tag len uniform bPtr m i) (hi : 2 ≤ i)
    (hroom : uniform + 32 * (i + (rest - 1) / 32) ≤ bPtr) :
    let m' := xmdLoop H uniform bPtr (bPtr + 32) (33 + (tag.length + 1))
      (beNat (RFC9380.b0 H msg tag len)) m i rest
    Scratch H msg tag len uniform bPtr m' (i + (rest - 1) / 32) ∧
      KeepsOutside m m' (uniform + 32 * i) (bPtr + 33) := by
  induction rest using Nat.strong_induction_on generalizing m i with
  | _ rest ih =>
    dsimp only
    rw [xmdLoop]
    split
    · next hlong =>
      have hrounds : i + (rest - 1) / 32 = i + 1 + (rest - 32 - 1) / 32 := by omega
      rw [hrounds] at hroom ⊢
      obtain ⟨hstep, hkeep⟩ := h.step hi (by omega)
      obtain ⟨hloop, hkeeps⟩ := ih (rest - 32) (by omega) hstep (by omega) hroom
      exact ⟨hloop, hkeep.trans (hkeeps.mono (by omega) le_rfl)⟩
    · next hshort =>
      rw [show (rest - 1) / 32 = 0 by omega]
      exact ⟨h, KeepsOutside.refl m _ _⟩

/-- The output, once its blocks are there. -/
theorem read_output {n : Nat} (h : Scratch H msg tag len uniform bPtr m (n + 1)) :
    read m (uniform + 32) (32 * n) =
      (List.range n).flatMap fun j => RFC9380.block H msg tag len (j + 1) := by
  induction n with
  | zero => rfl
  | succ n ih =>
    have hlast := h.blocks (n + 1) (by omega) (by omega)
    rw [Nat.mul_add, Nat.mul_one, read_add, ih ⟨h.behind, fun j hj hlt => h.blocks j hj (by omega)⟩,
      List.range_succ, List.flatMap_append, List.flatMap_singleton, ← hlast, Nat.mul_add,
      Nat.mul_one, Nat.add_right_comm, Nat.add_assoc]

end Scratch

/-- The first digest goes over the end of the message, and the first block comes out of the
buffer that leaves. -/
theorem scratch_start (H : Bytes → B256) (uniform : Nat) {n : Nat} (hn : msg.length = n)
    (hread : read m prime (0x44 + n + tag.length) = RFC9380.msgPrime msg tag len)
    (hroom : uniform + 64 ≤ prime) :
    let bPtr := prime + 0x22 + n
    let m₁ := sha256 H m prime (0x44 + n + tag.length) bPtr
    let m' := sha256 H (mstore8 m₁ (bPtr + 32) 1) bPtr (33 + (tag.length + 1)) (uniform + 0x20)
    mload m₁ bPtr = beNat (RFC9380.b0 H msg tag len) ∧
      Scratch H msg tag len uniform bPtr m' 2 ∧
      KeepsOutside m m' (uniform + 0x20) (bPtr + 33) := by
  dsimp only
  set bPtr := prime + 0x22 + n
  set m₁ := sha256 H m prime (0x44 + n + tag.length) bPtr
  set m₂ := mstore8 m₁ (bPtr + 32) 1
  set m₃ := sha256 H m₂ bPtr (33 + (tag.length + 1)) (uniform + 0x20)
  have k₁ : KeepsOutside m m₁ bPtr (bPtr + 32) := sha256_keeps H m _ _ _
  have k₂ : KeepsOutside m₁ m₂ (bPtr + 32) (bPtr + 33) := mstore8_keeps m₁ _ 1
  have k₃ : KeepsOutside m₂ m₃ (uniform + 0x20) (uniform + 0x40) := sha256_keeps H m₂ _ _ _
  have hframe : KeepsOutside m m₃ (uniform + 0x20) (bPtr + 33) :=
    ((k₁.mono (by omega) (by omega)).trans (k₂.mono (by omega) le_rfl)).trans
      (k₃.mono le_rfl (by omega))
  have hbehind : read m (bPtr + 33) (tag.length + 1) = RFC9380.dstPrime tag := by
    rw [show 0x44 + n + tag.length = 67 + n + (tag.length + 1) by omega, read_add] at hread
    have hsplit := (List.append_inj hread (by simp [hn]; omega)).2
    rwa [show prime + (67 + n) = bPtr + 33 by omega] at hsplit
  have hdigest : read m₁ bPtr 32 = RFC9380.b0 H msg tag len := by
    rw [read_sha256, hread, RFC9380.b0]
  refine ⟨by rw [mload, hdigest], ⟨?_, fun j hj hlt => ?_⟩, hframe⟩
  · rw [hframe.read_eq (Or.inr le_rfl), hbehind]
  · obtain rfl : j = 1 := by omega
    rw [Nat.mul_one, read_sha256, read_mstore8_index, hdigest, k₁.read_eq (Or.inr (by omega)),
      hbehind, RFC9380.block]

end Buffer

/-! ## 6. What the assembly computes -/

/-- A byte string where Solidity allocates one: above the reserved words and below the free
memory pointer, behind which there is room. -/
structure Layout (m : Memory) (message : Nat) (msg : Bytes) : Prop extends
    BytesAt m message msg where
  reserved : 0x80 ≤ message
  allocated : message + 0x20 + msg.length ≤ mload m 0x40
  room : mload m 0x40 + msg.length + 0x4080 < 2 ^ 256

/-- Rounding a small size down to whole words with the mask. -/
theorem and_mask {x : Nat} (hx : x < 2 ^ 16) : x &&& 0xffe0 = 32 * (x / 32) := by
  have hmask : 0xffe0 = (2 ^ 11 - 1) <<< 5 := rfl
  have hwords : 32 * (x / 32) = (x >>> 5) <<< 5 := by
    rw [Nat.shiftLeft_eq, Nat.shiftRight_eq_div_pow, Nat.mul_comm]
  have hsmall : x >>> 5 < 2 ^ 11 := by
    rw [Nat.shiftRight_eq_div_pow]
    omega
  have hshift : x &&& (2 ^ 11 - 1) <<< 5 = (x >>> 5 &&& (2 ^ 11 - 1)) <<< 5 := by
    refine Nat.eq_of_testBit_eq fun i => ?_
    rw [Nat.testBit_and, Nat.testBit_shiftLeft, Nat.testBit_shiftLeft, Nat.testBit_and,
      Nat.testBit_shiftRight]
    by_cases hi : 5 ≤ i
    · simp [hi]
    · simp [hi]
  rw [hmask, hshift, Nat.and_two_pow_sub_one_eq_mod, Nat.mod_eq_of_lt hsmall, hwords]


section Results

variable {m : Memory} {message : Nat} {msg tag : Bytes}

/-- The expanded bytes are the RFC's; the call allocates them and writes behind the free memory
pointer only. -/
theorem expandMessageXmd_spec (H : Bytes → B256) (len : Nat) (h : Layout m message msg)
    (htag : tag.length ≤ 31) (hpos : 1 ≤ len) (hlen : len ≤ 8160) :
    ∃ m' uniform, expandMessageXmd H m message (packTag tag) len = some (m', mload m 0x40) ∧
      RFC9380.expandMessageXmd H msg tag len = some uniform ∧ uniform.length = len ∧
      BytesAt m' (mload m 0x40) uniform ∧
      mload m' 0x40 = mload m 0x40 + 32 * ((len + 63) / 32) ∧
      ∀ a < mload m 0x40, a < 0x40 ∨ 0x60 ≤ a → m' a = m a := by
  have hres := h.reserved
  have halloc := h.allocated
  have hroom := h.room
  set u := mload m 0x40 with hu
  set n := msg.length with hn
  set ell := (len + 31) / 32 with hell
  have hmask : (0x3f + len) &&& 0xffe0 = 32 * (ell + 1) := by
    rw [and_mask (by omega)]
    omega
  have hrounds : 2 + (len - 1) / 32 = ell + 1 := by omega
  set m₁ := mstore m 0x40 (u + 32 * (ell + 1))
  set m₂ := mstore m₁ u len
  set prime := u + 32 * (ell + 1) with hprime
  have k₁ : KeepsOutside m m₁ 0x40 0x60 := mstore_keeps m 0x40 _
  have k₂ : KeepsOutside m₁ m₂ u (u + 0x20) := mstore_keeps m₁ u len
  have hmsg₂ : BytesAt m₂ message msg :=
    (h.toBytesAt.keep k₁ (Or.inr (by omega))).keep k₂ (Or.inl (by omega))
  have hfree₂ : mload m₂ 0x40 = prime := by
    rw [mload_eq k₂ (Or.inl (by omega)), mload_mstore m 0x40 (by omega)]
  have hsize₂ : mload m₂ u = len := mload_mstore m₁ u (by omega)
  obtain ⟨m₃, hlay, hread, k₃⟩ := layPrime_spec prime len hmsg₂ (by omega) htag
  obtain ⟨hb0, hstart, k₄⟩ := scratch_start H u hn.symm hread (by omega)
  set bPtr := prime + 0x22 + n
  set m₄ := sha256 H m₃ prime (0x44 + n + tag.length) bPtr
  set m₅ := sha256 H (mstore8 m₄ (bPtr + 32) 1) bPtr (33 + (tag.length + 1)) (u + 0x20)
  obtain ⟨hloop, k₅⟩ := hstart.loop len le_rfl (by omega)
  set m₆ := xmdLoop H u bPtr (bPtr + 32) (33 + (tag.length + 1))
    (beNat (RFC9380.b0 H msg tag len)) m₅ 2 len
  rw [hrounds] at hloop
  have hrun : expandMessageXmd H m message (packTag tag) len = some (m₆, u) := by
    unfold expandMessageXmd
    rw [if_pos hlen, hmask]
    dsimp only
    rw [show mload (mstore (mstore m 0x40 (u + 32 * (ell + 1))) u len) 0x40 = prime from hfree₂,
      show layPrime (mstore (mstore m 0x40 (u + 32 * (ell + 1))) u len) prime message
        (packTag tag) len = _ from hlay]
    dsimp only
    rw [show prime + 0x43 + n - 0x21 = bPtr by omega, show prime + 0x43 + n - 1 = bPtr + 32 by omega,
      show prime + 0x44 + n + tag.length - prime = 0x44 + n + tag.length by omega,
      show prime + 0x44 + n + tag.length - bPtr = 33 + (tag.length + 1) by omega, hb0]
  have hbelow : ∀ a < u + 0x20, m₆ a = m₂ a := fun a ha => by
    rw [k₅ a (Or.inl (by omega)), k₄ a (Or.inl (by omega)), k₃ a (Or.inl (by omega))]
  have hword : ∀ p, p + 0x20 ≤ u + 0x20 → mload m₆ p = mload m₂ p := fun p hp => by
    rw [mload, read_congr fun a _ ha => hbelow a (by omega), ← mload]
  refine ⟨m₆, _, hrun, if_neg ?_, ?_, ⟨?_, ?_⟩, ?_, fun a ha hout => ?_⟩
  · omega
  · rw [List.length_take, RFC9380.length_blocks]
    omega
  · rw [hword u le_rfl, hsize₂, List.length_take, RFC9380.length_blocks]
    omega
  · have hwhole := hloop.read_output
    rw [← hwhole, List.length_take, length_read, Nat.min_eq_left (by omega),
      read_take m₆ (u + 0x20) (by omega : len ≤ 32 * ell)]
  · rw [hword 0x40 (by omega), hfree₂, hprime]
    omega
  · rw [hbelow a (by omega), k₂ a (Or.inl ha), k₁ a hout]

/-- The input is as it was, wherever it ended. -/
theorem Layout.bytesAt (h : Layout m message msg) {m' : Memory}
    (hkeep : ∀ a < mload m 0x40, 0x60 ≤ a → m' a = m a) : BytesAt m' message msg := by
  have hres := h.reserved
  have halloc := h.allocated
  have hsame : ∀ a, message ≤ a → a < message + 0x20 + msg.length → m' a = m a :=
    fun a hle hlt => hkeep a (hlt.trans_le halloc) (by omega)
  refine ⟨?_, ?_⟩
  · rw [mload, read_congr fun a hle hlt => hsame a hle (by omega), ← mload, h.length]
  · rw [read_congr fun a hle hlt => hsame a (by omega) (by omega), h.bytes]

/-- The two words of the expanded bytes, reduced in two steps, are the 48 bytes reduced. -/
theorem hashToField_spec (H : Bytes → B256) (h : Layout m message msg) (htag : tag.length ≤ 31) :
    ∃ m' e, hashToField H m message (packTag tag) = some (m', e) ∧
      RFC9380.hashToField H msg tag = some e ∧
      mload m' 0x40 = mload m 0x40 + 0x60 ∧
      ∀ a < mload m 0x40, a < 0x40 ∨ 0x60 ≤ a → m' a = m a := by
  obtain ⟨m', uniform, hrun, hspec, hlength, hat, hfree, hkeep⟩ :=
    expandMessageXmd_spec H 48 h htag (by decide) (by decide)
  set u := mload m 0x40
  have hbytes : read m' (u + 0x20) 32 ++ read m' (u + 0x40) 16 = uniform := by
    have hwhole := hat.bytes
    rwa [hlength, show (48 : Nat) = 32 + 16 from rfl, read_add] at hwhole
  have hhigh : mload m' (u + 0x40) >>> 128 = beNat (read m' (u + 0x40) 16) := by
    have hdiv := beNat_append_div (read m' (u + 0x40) 16) (read m' (u + 0x40 + 16) 16)
    rw [length_read, ← read_add] at hdiv
    exact (Nat.shiftRight_eq_div_pow _ 128).trans hdiv
  have hvalue : (mload m' (u + 0x20) * 0x100000000000000000000000000000000 % Secp256k1.N +
      beNat (read m' (u + 0x40) 16)) % Secp256k1.N = beNat uniform % Secp256k1.N := by
    rw [← hbytes, beNat_append, length_read, Nat.mod_add_mod, mload]
    rfl
  refine ⟨m', beNat uniform % Secp256k1.N, ?_, ?_, hfree, hkeep⟩
  · rw [hashToField, hrun, ← hvalue, ← hhigh]
    exact rfl
  · rw [RFC9380.hashToField, hspec, Option.map_some]

/-- The tag is written over the length word, so that it stands right before the bytes. -/
theorem hash_spec (H : Bytes → B256) (h : BytesAt m message msg) (hres : 0x80 ≤ message)
    (htag : tag.length ≤ 31) :
    ∃ m', hash H m message (packTag tag) = (m', (H (tag ++ msg)).val) ∧
      ∀ a, 0x20 ≤ a → m' a = m a := by
  set d := tag.length with hd
  set m₁ := mstore m message (beNat tag)
  set m₂ := sha256 H m₁ (message + (32 - d)) (msg.length + d) 0x00
  set m₃ := mstore m₂ message msg.length
  have k₁ : KeepsOutside m m₁ message (message + 32) := mstore_keeps m message _
  have k₂ : KeepsOutside m₁ m₂ 0 32 := sha256_keeps H m₁ _ _ _
  have k₃ : KeepsOutside m₂ m₃ message (message + 32) := mstore_keeps m₂ message _
  have hword : beBytes 32 (beNat tag) = List.replicate (32 - d) 0 ++ tag := by
    have hlen : (List.replicate (32 - d) (0 : UInt8) ++ tag).length = 32 := by simp; omega
    rw [← beBytes_beNat hlen, beNat_append, beNat_replicate_zero, Nat.zero_mul, Nat.zero_add]
  have htagged : read m₁ (message + (32 - d)) d = tag := by
    have hread : read m₁ message (32 - d + d) = List.replicate (32 - d) 0 ++ tag := by
      rw [Nat.sub_add_cancel (by omega), read_mstore_word, hword]
    rw [read_add] at hread
    exact (List.append_inj hread (by simp)).2
  have hinput : read m₁ (message + (32 - d)) (msg.length + d) = tag ++ msg := by
    rw [Nat.add_comm msg.length, read_add, htagged,
      show message + (32 - d) + d = message + 0x20 by omega, k₁.read_eq (Or.inr le_rfl), h.bytes]
  have hdigest : mload m₂ 0x00 = (H (tag ++ msg)).val := by
    rw [mload, read_sha256, hinput, B256.toBytes, beNat_beBytes]
    exact Nat.mod_eq_of_lt (H (tag ++ msg)).isLt
  refine ⟨m₃, ?_, fun a ha => ?_⟩
  · unfold hash
    rw [packTag_mod htag]
    dsimp only
    rw [packTag_shiftRight htag, h.length, ← hd]
    exact Prod.ext rfl hdigest
  · by_cases hin : message ≤ a ∧ a < message + 32
    · refine apply_eq_of_read_eq ?_ hin.1 hin.2
      rw [read_mstore_word, ← h.length, beBytes_mload]
    · rw [k₃ a (by omega), k₂ a (Or.inr ha), k₁ a (by omega)]

/-- The assembly computes the RFC's functions of the message and the tag, whatever their
lengths, and leaves the message as it was. -/
theorem hashing_exact (H : Bytes → B256) (h : Layout m message msg) (htag : tag.length ≤ 31) :
    (∀ len, 1 ≤ len → len ≤ 8160 →
      ∃ m' uniform, expandMessageXmd H m message (packTag tag) len = some (m', mload m 0x40) ∧
        RFC9380.expandMessageXmd H msg tag len = some uniform ∧
        BytesAt m' (mload m 0x40) uniform ∧ BytesAt m' message msg) ∧
    (∃ m' e, hashToField H m message (packTag tag) = some (m', e) ∧
      (RFC9380.expandMessageXmd H msg tag 48).map (fun bytes => beNat bytes % Secp256k1.N) =
        some e ∧ BytesAt m' message msg) ∧
    ∃ m', hash H m message (packTag tag) = (m', (H (tag ++ msg)).val) ∧
      BytesAt m' message msg ∧ ∀ a, 0x20 ≤ a → m' a = m a := by
  refine ⟨fun len hpos hlen => ?_, ?_, ?_⟩
  · obtain ⟨m', uniform, hrun, hspec, -, hat, -, hkeep⟩ :=
      expandMessageXmd_spec H len h htag hpos hlen
    exact ⟨m', uniform, hrun, hspec, hat, h.bytesAt fun a ha hout => hkeep a ha (Or.inr hout)⟩
  · obtain ⟨m', e, hrun, hspec, -, hkeep⟩ := hashToField_spec H h htag
    exact ⟨m', e, hrun, hspec, h.bytesAt fun a ha hout => hkeep a ha (Or.inr hout)⟩
  · obtain ⟨m', hrun, hkeep⟩ := hash_spec H h.toBytesAt h.reserved htag
    exact ⟨m', hrun, h.bytesAt fun a _ hout => hkeep a (by omega), hkeep⟩

end Results

/-- Three bytes where the first allocation stands. -/
def firstAllocation : Memory :=
  write (mstore (mstore (fun _ => 0) 0x40 0xc0) 0x80 3) 0xa0 [0x61, 0x62, 0x63]

theorem layout_firstAllocation : Layout firstAllocation 0x80 [0x61, 0x62, 0x63] where
  length := by decide +kernel
  bytes := by decide +kernel
  reserved := le_rfl
  allocated := by decide +kernel
  room := by decide +kernel

theorem hashing_exact_abc :
    Layout firstAllocation 0x80 [0x61, 0x62, 0x63] ∧
      ∃ m', hash (fun bytes => Fin.ofNat _ (beNat bytes)) firstAllocation 0x80 (packTag [0x74]) =
          (m', 0x74616263) ∧ BytesAt m' 0x80 [0x61, 0x62, 0x63] := by
  obtain ⟨-, -, m', hrun, hat, -⟩ := hashing_exact (fun bytes => Fin.ofNat _ (beNat bytes))
    layout_firstAllocation (show List.length ([0x74] : Bytes) ≤ 31 by decide)
  exact ⟨layout_firstAllocation, m', hrun, hat⟩

/-! ## 7. The hashes of the ciphersuite -/

/-- The bytes of a string literal. -/
def literal (s : String) : Bytes := s.toList.map fun c => UInt8.ofNat c.toNat

/-- `_h1`. -/
def h1 (H : Bytes → B256) (m : Memory) (input : Nat) : Option (Memory × Nat) :=
  hashToField H m input (beNat (literal "FROST-secp256k1-SHA256-v1rho\x00\x00\x00\x1c"))

/-- `_h2`. -/
def h2 (H : Bytes → B256) (m : Memory) (input : Nat) : Option (Memory × Nat) :=
  hashToField H m input (beNat (literal "FROST-secp256k1-SHA256-v1chal\x00\x00\x1d"))

/-- `_h3`. -/
def h3 (H : Bytes → B256) (m : Memory) (input : Nat) : Option (Memory × Nat) :=
  hashToField H m input (beNat (literal "FROST-secp256k1-SHA256-v1nonce\x00\x1e"))

/-- `_h4`. -/
def h4 (H : Bytes → B256) (m : Memory) (input : Nat) : Memory × Nat :=
  hash H m input (beNat (literal "FROST-secp256k1-SHA256-v1msg\x00\x00\x00\x1c"))

/-- `_h5`. -/
def h5 (H : Bytes → B256) (m : Memory) (input : Nat) : Memory × Nat :=
  hash H m input (beNat (literal "FROST-secp256k1-SHA256-v1com\x00\x00\x00\x1c"))

/-- `_hdkg`. -/
def hdkg (H : Bytes → B256) (m : Memory) (input : Nat) : Option (Memory × Nat) :=
  hashToField H m input (beNat (literal "FROST-secp256k1-SHA256-v1dkg\x00\x00\x00\x1c"))

/-- `_hid`. -/
def hid (H : Bytes → B256) (m : Memory) (input : Nat) : Option (Memory × Nat) :=
  hashToField H m input (beNat (literal "FROST-secp256k1-SHA256-v1id\x00\x00\x00\x00\x1b"))

/-- The words the source writes out, and the tags they stand for. -/
def tags : List (String × String) :=
  [("FROST-secp256k1-SHA256-v1rho\x00\x00\x00\x1c", "FROST-secp256k1-SHA256-v1rho"),
   ("FROST-secp256k1-SHA256-v1chal\x00\x00\x1d", "FROST-secp256k1-SHA256-v1chal"),
   ("FROST-secp256k1-SHA256-v1nonce\x00\x1e", "FROST-secp256k1-SHA256-v1nonce"),
   ("FROST-secp256k1-SHA256-v1msg\x00\x00\x00\x1c", "FROST-secp256k1-SHA256-v1msg"),
   ("FROST-secp256k1-SHA256-v1com\x00\x00\x00\x1c", "FROST-secp256k1-SHA256-v1com"),
   ("FROST-secp256k1-SHA256-v1dkg\x00\x00\x00\x1c", "FROST-secp256k1-SHA256-v1dkg"),
   ("FROST-secp256k1-SHA256-v1id\x00\x00\x00\x00\x1b", "FROST-secp256k1-SHA256-v1id")]

/-- Every tag of the ciphersuite is packed with its own length. -/
theorem tags_packed : ∀ e ∈ tags,
    beNat (literal e.1) = packTag (literal e.2) ∧ (literal e.2).length ≤ 31 := by
  decide +kernel

end FROST

end Safenet
