/-
# Words, addresses and the ABI structures

The fixed-width values the validator exchanges with the chain, and the `sol!` structures of
`bindings.rs` that its state machine reads or emits.  A 64-bit block number or sequence is a
`Nat` with the saturating operations spelled out (`satAdd`, `satMul`), which is how the source
does every deadline computation; hashes and addresses are `Fin` of their own width, so that
the order a `BTreeMap` iterates in is the numeric order of the bytes.
-/
import Mathlib
import Safenet.Lib.BTreeMap

namespace Safenet

/-! ## 1. Words -/

/-- A 20-byte account address. -/
abbrev Address : Type := Fin (2 ^ 160)

/-- A 32-byte word: a hash, an identifier or a Merkle root. -/
abbrev B256 : Type := Fin (2 ^ 256)

/-- A 256-bit unsigned integer. -/
abbrev U256 : Type := Fin (2 ^ 256)

-- One named proof each for what a literal of these types and a map keyed by them need.
instance neZeroWord32 : NeZero (2 ^ 32) := inferInstance
instance neZeroWord64 : NeZero (2 ^ 64) := inferInstance
instance neZeroAddress : NeZero (2 ^ 160) := inferInstance
instance neZeroB256 : NeZero (2 ^ 256) := inferInstance
instance transOrdAddress : Std.TransOrd Address := inferInstance
instance transOrdB256 : Std.TransOrd B256 := inferInstance
instance lawfulEqOrdAddress : Std.LawfulEqOrd Address := inferInstance
instance lawfulEqOrdB256 : Std.LawfulEqOrd B256 := inferInstance

/-- A byte string. -/
abbrev Bytes : Type := List UInt8

/-- `u64::MAX`. -/
def u64Max : Nat := 2 ^ 64 - 1

/-- `u64::saturating_add`. -/
def satAdd (a b : Nat) : Nat := min (a + b) u64Max

/-- `u64::saturating_mul`. -/
def satMul (a b : Nat) : Nat := min (a * b) u64Max

/-- A length cast with `as u16`. -/
def asU16 (n : Nat) : Nat := n % 2 ^ 16

/-- A length cast with `as u16` is the length itself when it fits. -/
theorem asU16_of_lt {n : Nat} (h : n < 2 ^ 16) : asU16 n = n := Nat.mod_eq_of_lt h

/-- The big-endian encoding of `n` in `len` bytes. -/
def beBytes (len n : Nat) : Bytes :=
  (List.range len).map fun i => UInt8.ofNat (n / 256 ^ (len - 1 - i))

theorem beBytes_succ (len n : Nat) :
    beBytes (len + 1) n = UInt8.ofNat (n / 256 ^ len) :: beBytes len n := by
  rw [beBytes, List.range_succ_eq_map, List.map_cons, List.map_map]
  refine congrArg _ (List.map_congr_left fun i hi => ?_)
  have hlen : len + 1 - 1 - i.succ = len - 1 - i := by omega
  rw [Function.comp_apply, hlen]

@[simp] theorem length_beBytes (len n : Nat) : (beBytes len n).length = len := by
  simp [beBytes]

/-- The bytes determine the number modulo its width. -/
theorem beBytes_mod {len n m : Nat} (h : beBytes len n = beBytes len m) :
    n % 256 ^ len = m % 256 ^ len := by
  induction len with
  | zero => simp [Nat.mod_one]
  | succ len ih =>
    rw [beBytes_succ, beBytes_succ, List.cons.injEq] at h
    have hhead : n / 256 ^ len % 256 = m / 256 ^ len % 256 := by
      simpa using congrArg UInt8.toNat h.1
    rw [Nat.mod_pow_succ, Nat.mod_pow_succ, hhead, ih h.2]

/-- The number a byte string spells, most significant byte first. -/
def beNat (bytes : Bytes) : Nat := bytes.foldl (fun n b => n * 256 + b.toNat) 0

theorem foldl_beNat (bytes : Bytes) (n : Nat) :
    bytes.foldl (fun n b => n * 256 + b.toNat) n = n * 256 ^ bytes.length + beNat bytes := by
  induction bytes generalizing n with
  | nil => simp [beNat]
  | cons b bytes ih =>
    have hb : beNat (b :: bytes) = b.toNat * 256 ^ bytes.length + beNat bytes := by
      rw [beNat, List.foldl_cons, ih, Nat.zero_mul, Nat.zero_add]
    rw [List.foldl_cons, ih, hb, List.length_cons, pow_succ]
    ring

@[simp] theorem beNat_nil : beNat [] = 0 := rfl

theorem beNat_append (xs ys : Bytes) :
    beNat (xs ++ ys) = beNat xs * 256 ^ ys.length + beNat ys := by
  rw [beNat, List.foldl_append, ← beNat, foldl_beNat]

theorem beNat_singleton (b : UInt8) : beNat [b] = b.toNat := by
  simp [beNat]

theorem beNat_lt (bytes : Bytes) : beNat bytes < 256 ^ bytes.length := by
  induction bytes with
  | nil => simp
  | cons b bytes ih =>
    have hb : b.toNat < 256 := b.toNat_lt
    have hcons : beNat (b :: bytes) = b.toNat * 256 ^ bytes.length + beNat bytes := by
      rw [← List.singleton_append, beNat_append, beNat_singleton]
    rw [hcons, List.length_cons, pow_succ]
    nlinarith [Nat.mul_le_mul_right (256 ^ bytes.length) (Nat.le_of_lt_succ hb)]

/-- The bytes of a number spell it back. -/
theorem beNat_beBytes (len n : Nat) : beNat (beBytes len n) = n % 256 ^ len := by
  induction len with
  | zero => simp [beBytes, Nat.mod_one]
  | succ len ih =>
    rw [beBytes_succ, ← List.singleton_append, beNat_append, beNat_singleton, length_beBytes, ih,
      Nat.mod_pow_succ, UInt8.toNat_ofNat']
    ring

/-- Shifting a word right by whole bytes drops its last bytes. -/
theorem beNat_append_div (xs ys : Bytes) : beNat (xs ++ ys) / 256 ^ ys.length = beNat xs := by
  rw [beNat_append, Nat.mul_comm, Nat.mul_add_div (Nat.pos_of_ne_zero (by positivity)),
    Nat.div_eq_of_lt (beNat_lt ys), Nat.add_zero]

/-- As many bytes spell as many numbers. -/
theorem beNat_injective {xs ys : Bytes} (hlen : xs.length = ys.length) (h : beNat xs = beNat ys) :
    xs = ys := by
  induction xs generalizing ys with
  | nil => exact (List.eq_nil_of_length_eq_zero hlen.symm).symm
  | cons x xs ih =>
    obtain ⟨y, ys, rfl⟩ := List.exists_cons_of_length_eq_add_one hlen.symm
    rw [List.length_cons, List.length_cons, Nat.add_right_cancel_iff] at hlen
    rw [← List.singleton_append, ← List.singleton_append (l := ys)] at h
    have hhead : x.toNat = y.toNat := by
      rw [← beNat_singleton x, ← beNat_singleton y, ← beNat_append_div [x] xs,
        ← beNat_append_div [y] ys, h, hlen]
    have htail : beNat xs = beNat ys := by
      rw [beNat_append, beNat_append, beNat_singleton, beNat_singleton, hhead, hlen] at h
      exact Nat.add_left_cancel h
    rw [UInt8.toNat_inj.mp hhead, ih hlen htail]

/-- The number bytes spell has those bytes. -/
theorem beBytes_beNat {xs : Bytes} {len : Nat} (h : xs.length = len) :
    beBytes len (beNat xs) = xs := by
  refine beNat_injective (by rw [length_beBytes, h]) ?_
  rw [beNat_beBytes, ← h, Nat.mod_eq_of_lt (beNat_lt xs)]

/-- The 32 bytes of a word. -/
def B256.toBytes (w : B256) : Bytes := beBytes 32 w.val

@[simp] theorem B256.length_toBytes (w : B256) : (B256.toBytes w).length = 32 := length_beBytes 32 _

theorem B256.toBytes_injective : Function.Injective B256.toBytes := by
  intro a b h
  have hmod := beBytes_mod h
  have h256 : 256 ^ 32 = 2 ^ 256 := by decide
  rw [h256, Nat.mod_eq_of_lt a.isLt, Nat.mod_eq_of_lt b.isLt] at hmod
  exact Fin.ext hmod

/-- `Address::into_word`: the address left-padded to a word. -/
def Address.intoWord (a : Address) : B256 :=
  Fin.castLE (Nat.pow_le_pow_right (by decide) (by decide)) a

/-! ## 2. The ABI structures -/

/-- A secp256k1 point in affine coordinates; `(0, 0)` stands for the identity. -/
structure Point where
  x : U256
  y : U256
  deriving DecidableEq

/-- `Enum.Operation`. -/
inductive Operation where
  | call
  | delegatecall
  deriving DecidableEq

/-- `operation as u8`. -/
def Operation.toNat : Operation → Nat
  | .call => 0
  | .delegatecall => 1

/-- A full Safe transaction, as carried by `TransactionProposed`. -/
structure SafeTransaction where
  chainId : U256
  safe : Address
  «to» : Address
  value : U256
  data : Bytes
  operation : Operation
  safeTxGas : U256
  baseGas : U256
  gasPrice : U256
  gasToken : Address
  refundReceiver : Address
  nonce : U256
  deriving DecidableEq

/-- The DKG commitment: encryption key `q`, coefficient commitments `c`, and the proof of
knowledge `(r, mu)`. -/
structure KeyGenCommitment where
  q : Point
  c : List Point
  r : Point
  mu : U256
  deriving DecidableEq

/-- The DKG secret share: public key share `y` and the encrypted evaluations `f`. -/
structure KeyGenSecretShare where
  y : Point
  f : List U256
  deriving DecidableEq

/-- A revealed nonce commitment pair: hiding `d`, binding `e`. -/
structure SignNonces where
  d : Point
  e : Point
  deriving DecidableEq

/-- The signer selection a signature share is submitted to. -/
structure SignSelection where
  r : Point
  root : B256
  deriving DecidableEq

/-- One participant's signature share `(r, z, l)`. -/
structure SignatureShare where
  r : Point
  z : U256
  l : U256
  deriving DecidableEq

/-- The calldata of a coordinator callback, before ABI encoding. -/
inductive CallbackContext where
  /-- `Consensus.stageEpoch`, signature id left zero. -/
  | stageEpoch (proposedEpoch rolloverBlock : Nat) (groupId signatureId : B256)
  /-- `Consensus.attestTransaction`, signature id left zero. -/
  | attestTransaction (epoch : Nat) (oracle : Address) (oracleDataHash : B256) (chainId : U256)
      (safe : Address) (safeTxStructHash signatureId : B256)
  /-- The `(epoch, rolloverBlock)` pair `onKeyGenCompleted` decodes. -/
  | proposeEpoch (proposedEpoch rolloverBlock : Nat)
  deriving DecidableEq

/-- Callback target and context for the `*WithCallback` coordinator calls. -/
structure Callback where
  target : Address
  context : CallbackContext
  deriving DecidableEq

end Safenet
