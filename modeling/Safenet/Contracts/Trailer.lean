/-
# What a signature carries

`SignatureExtension.sol` and `AttestationTrailer.sol`: after the owners' signatures of a Safe
transaction there may be a payload, its length and a type hash, read from the end.  The guard's payload
is an attestation, ABI-encoded.

Reading and writing are inverse to each other (`trailer_exact`): whatever stands before it, an attestation
that is appended is the one that is read, and what is read was appended in this one form.
-/
import Safenet.Contracts.Messages

namespace Safenet

/-! ## 1. Words in bytes -/

/-- `bytes32(bytes[i:i + 32])`. -/
def wordAt (bytes : Bytes) (i : Nat) : Nat := beNat ((bytes.drop i).take 32)

theorem wordAt_lt (bytes : Bytes) (i : Nat) : wordAt bytes i < 2 ^ 256 := by
  have hlt := beNat_lt ((bytes.drop i).take 32)
  have hle : 256 ^ ((bytes.drop i).take 32).length ≤ 256 ^ 32 :=
    Nat.pow_le_pow_right (by decide) (List.length_take_le _ _)
  exact hlt.trans_le hle

/-- A word that was written is read. -/
theorem wordAt_append {front back : Bytes} {v : Nat} (hv : v < 2 ^ 256) {i : Nat}
    (hi : front.length = i) : wordAt (front ++ (beBytes 32 v ++ back)) i = v := by
  have h256 : 256 ^ 32 = 2 ^ 256 := by decide
  rw [wordAt, List.drop_left' hi, List.take_left' (length_beBytes 32 v), beNat_beBytes, h256,
    Nat.mod_eq_of_lt hv]

/-- The words of some bytes. -/
def wordsOf (bytes : Bytes) (k : Nat) : List Nat := (List.range k).map fun i => wordAt bytes (32 * i)

theorem wordsOf_succ (v k : Nat) (hv : v < 2 ^ 256) (bytes : Bytes) :
    wordsOf (beBytes 32 v ++ bytes) (k + 1) = v :: wordsOf bytes k := by
  have hfirst : wordAt (beBytes 32 v ++ bytes) 0 = v := @wordAt_append [] bytes v hv 0 rfl
  have hrest : ∀ i, wordAt (beBytes 32 v ++ bytes) (32 * (i + 1)) = wordAt bytes (32 * i) := by
    intro i
    have hdrop : 32 * (i + 1) = (beBytes 32 v).length + 32 * i := by
      rw [length_beBytes]
      ring
    rw [wordAt, hdrop, ← List.drop_drop, List.drop_left, wordAt]
  rw [wordsOf, List.range_succ_eq_map, List.map_cons, List.map_map, Nat.mul_zero, hfirst]
  exact congrArg (v :: ·) (List.map_congr_left fun i _ => hrest i)

/-- The words that were written are read. -/
theorem wordsOf_words {values : List Nat} (h : ∀ v ∈ values, v < 2 ^ 256) :
    wordsOf (words values) values.length = values := by
  induction values with
  | nil => rfl
  | cons v values ih =>
    rw [List.forall_mem_cons] at h
    rw [words, List.flatMap_cons, List.length_cons, wordsOf_succ v _ h.1]
    exact congrArg (v :: ·) (ih h.2)

/-- As many bytes as words have are the words that are read. -/
theorem words_wordsOf {k : Nat} {bytes : Bytes} (h : bytes.length = 32 * k) :
    words (wordsOf bytes k) = bytes := by
  induction k generalizing bytes with
  | zero => exact (List.eq_nil_of_length_eq_zero h).symm
  | succ k ih =>
    have hfirst : (bytes.take 32).length = 32 := by
      rw [List.length_take]
      omega
    have hrest : (bytes.drop 32).length = 32 * k := by
      rw [List.length_drop]
      omega
    have hword : beBytes 32 (beNat (bytes.take 32)) = bytes.take 32 := beBytes_beNat hfirst
    have hsplit : beBytes 32 (beNat (bytes.take 32)) ++ bytes.drop 32 = bytes := by
      rw [hword, List.take_append_drop]
    have hlt : beNat (bytes.take 32) < 2 ^ 256 := wordAt_lt bytes 0
    have hread := wordsOf_succ _ k hlt (bytes.drop 32)
    rw [hsplit] at hread
    rw [hread, words, List.flatMap_cons, hword]
    exact (congrArg (bytes.take 32 ++ ·) (ih hrest)).trans (List.take_append_drop 32 bytes)

theorem length_words (values : List Nat) : (words values).length = 32 * values.length := by
  induction values with
  | nil => rfl
  | cons v values ih =>
    rw [words, List.flatMap_cons, List.length_append, length_beBytes, ← words, ih, List.length_cons]
    ring

/-! ## 2. The errors -/

/-- The errors of the guard, and of the libraries it is built on. -/
inductive GuardError where
  | invalidAddress
  | invalidParameter
  | untrustedAttestationKey
  | attestationNotFound
  | unknownParent
  | epochNotAdvancing
  | notOnCurve
  | invalidSignature
  | announcementAlreadyExists
  | announcementNotFound
  | windowOverflow
  | malformedSignatureExtension
  | malformedAttestationTrailer
  | invalidEncoding
  | panic
  deriving DecidableEq

/-- `require`. -/
def ensure (p : Prop) [Decidable p] (e : GuardError) : Except GuardError Unit :=
  if p then .ok () else .error e

theorem ensure_eq_ok {p : Prop} [Decidable p] {e : GuardError} {u : Unit} :
    ensure p e = .ok u ↔ p := by
  unfold ensure
  split <;> simp_all

/-! ## 3. The envelope -/

namespace SignatureExtension

variable (typeHash : B256) (signatures : Bytes)

/-- `SignatureExtension.has`. -/
def has : Bool :=
  32 ≤ signatures.length ∧ wordAt signatures (signatures.length - 32) = typeHash.val

/-- `SignatureExtension.payload`: what is before the length and the type hash. -/
def payload : Except GuardError Bytes := do
  ensure (64 ≤ signatures.length ∧ wordAt signatures (signatures.length - 32) = typeHash.val)
    .malformedSignatureExtension
  let envelope := signatures.length - 64
  let payloadLength := wordAt signatures envelope
  ensure (payloadLength ≤ envelope) .malformedSignatureExtension
  return (signatures.drop (envelope - payloadLength)).take payloadLength

variable {typeHash signatures} {bytes front : Bytes}

/-- Some bytes, with their length and the type hash after them. -/
def sealed (typeHash : B256) (bytes : Bytes) : Bytes :=
  bytes ++ words [bytes.length, typeHash.val]

/-- **The payload is what was sealed last**, whatever stands before it. -/
theorem payload_eq_ok (hlength : bytes.length < 2 ^ 256) :
    payload typeHash signatures = .ok bytes ↔ ∃ front, signatures = front ++ sealed typeHash bytes := by
  simp only [payload, Except.bind_eq_ok, ensure_eq_ok, exists_const, Except.pure_eq_ok]
  constructor
  · rintro ⟨⟨hlong, htype⟩, hle, hbytes⟩
    set envelope := signatures.length - 64 with henvelope
    -- the envelope is cut into the payload, what is before it, and two words
    have hcut : signatures.length = (envelope + 32) + 32 := by omega
    have hlast : beBytes 32 typeHash.val = signatures.drop (envelope + 32) := by
      have hlen : (signatures.drop (envelope + 32)).length = 32 := by
        rw [List.length_drop]
        omega
      have hread : wordAt signatures (envelope + 32) = beNat (signatures.drop (envelope + 32)) := by
        rw [wordAt, List.take_of_length_le hlen.le]
      have hindex : signatures.length - 32 = envelope + 32 := by omega
      rw [← htype, hindex, hread]
      exact beBytes_beNat hlen
    have hword : beBytes 32 (wordAt signatures envelope) = (signatures.drop envelope).take 32 := by
      refine beBytes_beNat ?_
      rw [List.length_take, List.length_drop]
      omega
    have hbytesLength : bytes.length = wordAt signatures envelope := by
      rw [← hbytes, List.length_take, List.length_drop]
      omega
    refine ⟨signatures.take (envelope - wordAt signatures envelope), ?_⟩
    have hsealed : sealed typeHash bytes = signatures.drop (envelope - wordAt signatures envelope) := by
      have hrest : signatures.drop envelope =
          beBytes 32 (wordAt signatures envelope) ++ beBytes 32 typeHash.val := by
        rw [hword, hlast, ← List.drop_drop, List.take_append_drop]
      have hfront : signatures.drop envelope =
          (signatures.drop (envelope - wordAt signatures envelope)).drop (wordAt signatures envelope) := by
        rw [List.drop_drop]
        congr 1
        omega
      rw [sealed, hbytesLength, words, List.flatMap_cons, List.flatMap_cons, List.flatMap_nil,
        List.append_nil, ← hrest, hfront, ← hbytes, List.take_append_drop]
    rw [hsealed, List.take_append_drop]
  · rintro ⟨front, rfl⟩
    have hlen : (front ++ sealed typeHash bytes).length = front.length + bytes.length + 64 := by
      simp only [sealed, List.length_append, length_words, List.length_cons, List.length_nil]
      omega
    have hsplit : front ++ sealed typeHash bytes =
        (front ++ bytes) ++ (beBytes 32 bytes.length ++ (beBytes 32 typeHash.val ++ [])) := by
      simp [sealed, words]
    have hword : wordAt (front ++ sealed typeHash bytes) (front.length + bytes.length) =
        bytes.length := by
      rw [hsplit]
      exact wordAt_append hlength List.length_append
    have htype : wordAt (front ++ sealed typeHash bytes) (front.length + bytes.length + 32) =
        typeHash.val := by
      rw [hsplit, ← List.append_assoc (front ++ bytes)]
      exact wordAt_append typeHash.isLt (by simp [Nat.add_assoc])
    have henvelope : front.length + bytes.length + 64 - 64 = front.length + bytes.length := by omega
    have hindex : front.length + bytes.length + 64 - 32 = front.length + bytes.length + 32 := by omega
    rw [hlen, hindex, henvelope, htype, hword]
    refine ⟨⟨by omega, rfl⟩, by omega, ?_⟩
    rw [Nat.add_sub_cancel, List.drop_left, sealed, List.take_left]

theorem has_sealed : has typeHash (front ++ sealed typeHash bytes) = true := by
  have hsplit : front ++ sealed typeHash bytes =
      (front ++ bytes ++ beBytes 32 bytes.length) ++ (beBytes 32 typeHash.val ++ []) := by
    simp [sealed, words]
  have hlen : (front ++ sealed typeHash bytes).length =
      (front ++ bytes ++ beBytes 32 bytes.length).length + 32 := by
    simp [sealed, words, Nat.add_assoc]
  rw [has, hlen, Nat.add_sub_cancel, hsplit, wordAt_append typeHash.isLt rfl]
  simp

end SignatureExtension

/-! ## 4. The attestation -/

/-- What an attestation says: whose it is, which oracle and data it is bound to, and the signature. -/
structure AttestationTrailer where
  epoch : Fin (2 ^ 64)
  oracle : Address
  oracleDataHash : B256
  groupKey : Point
  signature : FrostSignature
  deriving DecidableEq

namespace AttestationTrailer

variable (keccak256 : Bytes → B256)

/-- `AttestationTrailer.TYPE_HASH`. -/
def typeHash : B256 := keccak256 (asBytes "SafenetGuard.AttestationTrailer.v1")

/-- `AttestationTrailer.hasTrailer`. -/
def hasTrailer (signatures : Bytes) : Bool := SignatureExtension.has (typeHash keccak256) signatures

/-- `abi.decode(bytes, (uint64, address, bytes32, Secp256k1.Point, FROST.Signature))`: words, of which
two have to fit their types. -/
def abiDecode (bytes : Bytes) : Except GuardError AttestationTrailer :=
  if hepoch : wordAt bytes 0 < 2 ^ 64 then
    if horacle : wordAt bytes 32 < 2 ^ 160 then
      .ok {
        epoch := ⟨wordAt bytes 0, hepoch⟩
        oracle := ⟨wordAt bytes 32, horacle⟩
        oracleDataHash := ⟨wordAt bytes 64, wordAt_lt bytes 64⟩
        groupKey := ⟨⟨wordAt bytes 96, wordAt_lt bytes 96⟩, ⟨wordAt bytes 128, wordAt_lt bytes 128⟩⟩
        signature :=
          ⟨⟨⟨wordAt bytes 160, wordAt_lt bytes 160⟩, ⟨wordAt bytes 192, wordAt_lt bytes 192⟩⟩,
            ⟨wordAt bytes 224, wordAt_lt bytes 224⟩⟩ }
    else .error .invalidEncoding
  else .error .invalidEncoding

/-- `AttestationTrailer.decode`. -/
def decode (signatures : Bytes) : Except GuardError AttestationTrailer := do
  let payloadData ← SignatureExtension.payload (typeHash keccak256) signatures
  ensure (payloadData.length = 256) .malformedAttestationTrailer
  abiDecode payloadData

/-- The words of an attestation. -/
def toWords (t : AttestationTrailer) : List Nat :=
  [t.epoch.val, t.oracle.val, t.oracleDataHash.val, t.groupKey.x.val, t.groupKey.y.val,
    t.signature.r.x.val, t.signature.r.y.val, t.signature.z.val]

/-- An attestation, as it is appended to signatures. -/
def encode (t : AttestationTrailer) : Bytes :=
  SignatureExtension.sealed (typeHash keccak256) (words t.toWords)

theorem toWords_lt (t : AttestationTrailer) : ∀ v ∈ t.toWords, v < 2 ^ 256 := by
  simp only [toWords, List.forall_mem_cons]
  exact ⟨t.epoch.isLt.trans (by decide), t.oracle.isLt.trans (by decide), t.oracleDataHash.isLt,
    t.groupKey.x.isLt, t.groupKey.y.isLt, t.signature.r.x.isLt, t.signature.r.y.isLt,
    t.signature.z.isLt, by simp⟩

/-- The bytes of an attestation are its words. -/
theorem abiDecode_eq_ok {bytes : Bytes} (hlength : bytes.length = 256) {t : AttestationTrailer} :
    abiDecode bytes = .ok t ↔ bytes = words t.toWords := by
  have hwords : words (wordsOf bytes 8) = bytes := words_wordsOf hlength
  have hread : wordsOf bytes 8 = [wordAt bytes 0, wordAt bytes 32, wordAt bytes 64, wordAt bytes 96,
    wordAt bytes 128, wordAt bytes 160, wordAt bytes 192, wordAt bytes 224] := rfl
  constructor
  · intro h
    unfold abiDecode at h
    split at h
    · split at h
      · obtain rfl := Except.ok.inj h
        refine hwords.symm.trans ?_
        rw [hread]
        rfl
      · exact absurd h (by simp)
    · exact absurd h (by simp)
  · rintro rfl
    have hvalues : wordsOf (words t.toWords) 8 = t.toWords := wordsOf_words t.toWords_lt
    rw [hread] at hvalues
    simp only [toWords, List.cons.injEq, and_true] at hvalues
    obtain ⟨hepoch, horacle, hdata, hkeyx, hkeyy, hrx, hry, hz⟩ := hvalues
    simp only [toWords] at *
    simp [abiDecode, hepoch, horacle, hdata, hkeyx, hkeyy, hrx, hry, hz]

/-- **An attestation is read exactly where it was appended**, whatever stands before it. -/
theorem decode_eq_ok {signatures : Bytes} {t : AttestationTrailer} :
    decode keccak256 signatures = .ok t ↔ ∃ front, signatures = front ++ t.encode keccak256 := by
  have hwords : (words t.toWords).length = 256 := length_words _
  constructor
  · intro h
    simp only [decode, Except.bind_eq_ok, ensure_eq_ok, exists_const] at h
    obtain ⟨bytes, hpayload, hlength, hdecode⟩ := h
    obtain rfl := (abiDecode_eq_ok hlength).mp hdecode
    exact (SignatureExtension.payload_eq_ok (hlength.trans_lt (by decide))).mp hpayload
  · intro h
    simp only [decode, Except.bind_eq_ok, ensure_eq_ok, exists_const]
    exact ⟨_, (SignatureExtension.payload_eq_ok (hwords.trans_lt (by decide))).mpr h, hwords,
      (abiDecode_eq_ok hwords).mpr rfl⟩

theorem hasTrailer_append (front : Bytes) (t : AttestationTrailer) :
    hasTrailer keccak256 (front ++ t.encode keccak256) = true := SignatureExtension.has_sealed

/-- **The trailer's format**: what is read is what was appended last, there is one way to read it, and
what has no trailer is not read. -/
theorem trailer_exact (keccak256 : Bytes → B256) (signatures : Bytes) :
    (∀ t, decode keccak256 signatures = .ok t ↔ ∃ front, signatures = front ++ t.encode keccak256) ∧
      (∀ front t front' t', signatures = front ++ encode keccak256 t →
        signatures = front' ++ encode keccak256 t' → front = front' ∧ t = t') ∧
      (hasTrailer keccak256 signatures = false → ∀ t, decode keccak256 signatures ≠ .ok t) := by
  refine ⟨fun t => decode_eq_ok keccak256, ?_, ?_⟩
  · intro front t front' t' h h'
    have hread := (decode_eq_ok keccak256).mpr ⟨front, h⟩
    have hread' := (decode_eq_ok keccak256).mpr ⟨front', h'⟩
    obtain rfl := Except.ok.inj (hread.symm.trans hread')
    exact ⟨List.append_cancel_right (h.symm.trans h'), rfl⟩
  · intro hnone t hread
    obtain ⟨front, rfl⟩ := (decode_eq_ok keccak256).mp hread
    rw [hasTrailer_append] at hnone
    exact absurd hnone (by simp)

end AttestationTrailer

end Safenet
