/-
# A small deployment

A concrete environment the definitions can be run in: four validators, so a threshold of three,
over a curve with one non-identity element on which every operation succeeds, and a polynomial
in place of Keccak-256.  Nothing is proved FROM the toy crates; they are where a hypothesis is
shown to be satisfiable and where a run that breaks a property is carried out.

`genesisRun` is the common prefix: the genesis key generation from its `KeyGen` log to the last
confirmation, with the validator's first nonce tree linked to its chunk.
-/
import Safenet.Validator.Node
import Safenet.Contracts.Coordinator

namespace Safenet

open Frost

namespace Toy

/-! ## 1. The crates -/

/-- A polynomial hash of a byte string, which is odd and so never zero. -/
def keccak256 (bytes : Bytes) : B256 :=
  Fin.ofNat _ (2 * bytes.foldl (fun h b => (h * 257 + b.toNat + 1) % 2 ^ 256) 7 + 1)

theorem keccak256_ne_zero (bytes : Bytes) : keccak256 bytes ≠ 0 := by
  intro h
  have hv := congrArg Fin.val h
  rw [keccak256, Fin.val_ofNat, Fin.val_zero] at hv
  omega

/-- Identifiers are addresses, and the curve has the identity and one other element. -/
def types : CrateTypes where
  Identifier := Address
  Scalar := Unit
  Element := Bool

/-- Crates whose every operation succeeds. -/
def crates : Crates where
  toCrateTypes := types
  keccak256 := keccak256
  identity := false
  generator := true
  add _ _ := true
  mul _ _ := true
  xCoordinate _ := 0
  decodePoint _ := some true
  encodePoint _ := ⟨1, 1⟩
  decodeScalar _ := some ()
  encodeScalar _ := 0
  derive := id
  verifyProofOfKnowledge _ _ _ := .ok ()
  part2 s peers := .ok
    ({ identifier := s.identifier, commitment := s.commitment, secretShare := ()
       minSigners := s.minSigners, maxSigners := s.maxSigners },
      peers.map fun _ _ => ⟨()⟩)
  part3 s _ _ := .ok
    { identifier := s.identifier, signingShare := (), verifyingShare := true, verifyingKey := true
      minSigners := s.minSigners }
  sumCommitments _ := .ok [true, true, true]
  verifyingKeyFromCommitment _ := .ok true
  verifyingShareFromCommitment _ _ := true
  verifyShare _ _ _ := .ok ()
  sign _ _ _ _ := .ok ()
  bindingFactors commitments _ _ := .ok (commitments.map fun _ _ => ())
  interpolatingValue _ _ := .ok ()
  groupCommitment _ _ := .ok true

/-! ## 2. The validators -/

/-- The oracle whose results are honored. -/
def oracle : Address := 9

/-- Four validators, active in every epoch. -/
def config : ValidatorConfig where
  consensus := 77
  participants := [⟨1, 0, none⟩, ⟨2, 0, none⟩, ⟨3, 0, none⟩, ⟨4, 0, none⟩]
  oracles := {oracle}
  genesisSalt := 0
  blocksPerEpoch := 1000
  keyGenTimeout := 100
  signingTimeout := 6
  oracleTimeout := 12

/-- The participants of the genesis group. -/
def genesis : ParticipantSet := ⟨{1, 2, 3, 4}, ∅, 0⟩

/-- The validator with a given account. -/
def validator (account : Address) : Transition crates where
  account
  genesis
  consensus := ⟨1, 77⟩
  config
  genesis_eq := by decide +kernel

/-- The genesis group. -/
def group : Group := genesis.group keccak256

/-- A log of the coordinator or the consensus contract. -/
def eventLog (block : Nat) (data : Event) : EventLog Event := ⟨block, 0, 0, data⟩

/-- A point other than the identity. -/
def point : Point := Secp256k1.generator

/-- What every participant commits to. -/
def commitment : KeyGenCommitment := ⟨point, [point, point, point], point, 0⟩

/-- What every participant shares. -/
def share : KeyGenSecretShare := ⟨point, [0, 0, 0]⟩

/-- The nonces every signer reveals. -/
def signNonces : SignNonces := ⟨point, point⟩

/-- The secrets of a participant. -/
def secrets (account : Address) : Secrets crates where
  encryptionKey := ()
  secretPackage := { identifier := account, coefficients := [], commitment := [true, true, true]
                     minSigners := 3, maxSigners := 4 }
  proofOfKnowledge := ⟨true, ()⟩

/-- The root of the nonce tree linked to the first chunk. -/
def nonceRoot : B256 := 4242

/-- One log of every validator, a block each. -/
def everyone (block : Nat) (data : Address → Event) : List (EventLog Event) :=
  [eventLog block (data 1), eventLog (block + 1) (data 2), eventLog (block + 2) (data 3),
    eventLog (block + 3) (data 4)]

/-- The commitments and the shares of a group. -/
def sharedLogs (block : Nat) (gid : B256) : List (EventLog Event) :=
  everyone block (fun a => .keyGenCommitted gid a commitment) ++
    everyone (block + 4) (fun a => .keyGenSecretShared gid a share)

/-- The logs of the genesis key generation after its `KeyGen` log, with the validator's first
nonce tree linked by the last. -/
def genesisLogs (account : Address) : List (EventLog Event) :=
  sharedLogs 2 group.id ++ everyone 10 (fun a => .keyGenConfirmed group.id a) ++
    [eventLog 14 (.preprocess group.id account 0 nonceRoot)]

/-- The genesis key generation, as one validator sees it. -/
def genesisRun (account : Address) : List (Msg crates) :=
  [.event (eventLog 1 (.keyGen group.id)), .resume (.setup group.id (secrets account))] ++
    (genesisLogs account).map .event

/-- The genesis key generation up to the last secret share. -/
def sharingRun (account : Address) : List (Msg crates) :=
  [.event (eventLog 1 (.keyGen group.id)), .resume (.setup group.id (secrets account))] ++
    (sharedLogs 2 group.id).map .event

/-- The group of the first regular epoch, without some of the validators. -/
def epochGroup (excluded : Finset Address) : Group :=
  (ParticipantSet.mk ({1, 2, 3, 4} \ excluded) excluded (groupContext 77 1)).group keccak256

/-- The fourth validator does not commit to the first regular epoch, whose key generation starts
over when its deadline passes. -/
def stalledRun (account : Address) : List (Msg crates) :=
  genesisRun account ++ [.resume (.setup (epochGroup ∅).id (secrets account))] ++
    ((everyone 15 (fun a => .keyGenCommitted (epochGroup ∅).id a commitment)).take 3).map .event ++
    [.newBlock 113, .resume (.setup (epochGroup {4}).id (secrets account))]

/-- The first regular epoch's key generation, up to the last commitment. -/
def epochRun (account : Address) : List (Msg crates) :=
  genesisRun account ++ [.resume (.setup (epochGroup ∅).id (secrets account)),
    .event (eventLog 14 (.keyGen (epochGroup ∅).id))] ++
    (everyone 15 (fun a => .keyGenCommitted (epochGroup ∅).id a commitment)).map .event

/-- A complaint in it against the fourth validator. -/
def complaint (block : Nat) (plaintiff : Address) (compromised : Bool) : EventLog Event :=
  eventLog block (.keyGenComplained (epochGroup ∅).id plaintiff 4 compromised)

/-- The fourth validator's answer. -/
def answer (block : Nat) (plaintiff : Address) : EventLog Event :=
  eventLog block (.keyGenComplaintResponded (epochGroup ∅).id plaintiff 4 0)

/-- Two complaints against the fourth validator, each answered before the next. -/
def answeredRun : List (Msg crates) :=
  epochRun 1 ++ [.event (complaint 19 1 false), .event (answer 20 1),
    .event (complaint 21 2 false), .event (answer 22 2)]

/-- The fourth validator leaves a complaint unanswered and answers one filed after the complaint
deadline, which is at block 122. -/
def lateRun : List (Msg crates) :=
  epochRun 1 ++ (everyone 19 (fun a => .keyGenSecretShared (epochGroup ∅).id a share)).map .event ++
    [.event (complaint 30 1 false), .event (complaint 150 2 false), .event (answer 160 2)]

/-- A proposed transaction. -/
def transaction : SafeTransaction := ⟨1, 5, 6, 0, [], .call, 0, 0, 0, 0, 0, 0⟩

/-- The packet of the proposed transaction. -/
def packet : Packet := .transaction .genesis oracle [] transaction

/-- The message it is signed under. -/
def message : B256 := (validator 1).packetHash packet

/-- Its proposal. -/
def proposal (block : Nat) : EventLog Event :=
  eventLog block (.transactionProposed oracle 0 [] transaction)

/-- A run up to its proposal. -/
def proposedRun : List (Msg crates) := genesisRun 1 ++ [.event (proposal 15)]

/-- A `Sign` log of the genesis group over it. -/
def request (block sequence : Nat) : EventLog Event :=
  eventLog block
    (.sign group.id message (Coordinator.signatureId group.id sequence) sequence)

/-- Its oracle's approval. -/
def approval (block : Nat) : EventLog Event := ⟨block, 0, oracle, .oracleResult message true⟩

/-- A signer's reveal in the round of a sequence. -/
def revealed (block sequence : Nat) (participant : Address) : EventLog Event :=
  eventLog block
    (.signRevealedNonces (Coordinator.signatureId group.id sequence) participant signNonces)

/-- A run up to its request. -/
def requestedRun : List (Msg crates) := proposedRun ++ [.event (request 16 0)]

/-- Three of the four signers reveal, and the deadline passes. -/
def timedOut : List (Msg crates) :=
  [.event (revealed 18 0 1), .event (revealed 19 0 2), .event (revealed 20 0 3), .newBlock 23]

/-- The logs up to the third reveal of the round. -/
def revealedLogs : List (EventLog Event) :=
  genesisLogs 1 ++ [proposal 15, request 16 0, approval 17, revealed 18 0 1, revealed 19 0 2,
    revealed 20 0 3]

/-- The updates and resumes that feed a machine the run up to the third reveal. -/
def approvedInputs : List (Input Event (Resume crates)) :=
  [.update (.warp 1 21), .update (.logs 1 1 [eventLog 1 (.keyGen group.id)]),
    .resume (.setup group.id (secrets 1)), .update (.logs 2 20 revealedLogs)]

/-- The last reveal. -/
def lastReveal : Update Event := .logs 21 21 [revealed 21 0 4]

/-- A chunk of one nonce. -/
def chunk : NonceChunk crates := ⟨[⟨⟨(), (), ⟨true, true⟩⟩, []⟩], nonceRoot⟩

/-- A process that goes through the run, registers the nonce tree in time, and signs. -/
def signingLabels : List (Label crates) :=
  [.update (.warp 1 21), .update (.logs 1 1 [eventLog 1 (.keyGen group.id)]),
    .work 0 ⟨some (secrets 1), none⟩, .deliver 0, .update (.logs 2 20 revealedLogs),
    .work 0 ⟨none, none⟩, .work 0 ⟨none, some chunk⟩, .work 0 ⟨none, none⟩,
    .update lastReveal, .work 2 ⟨none, none⟩, .deliver 2]

/-- The block and the log that start the genesis key generation. -/
def startBlock : List (Label crates) :=
  [.update (.new 2), .update (.logs 2 2 [eventLog 2 (.keyGen group.id)])]

/-- A small multiple of a point. -/
def times : Nat → Point → Point
  | 0, _ => Secp256k1.zero
  | n + 1, p => (Secp256k1.add (times n p) p).getD Secp256k1.zero

/-- A challenge small enough to multiply with. -/
def challenge (r key : Point) (message : B256) : Nat :=
  (r.x.val + key.x.val + message.val) % 5 + 1

/-- The Schnorr equation. -/
def schnorr (z c : Nat) (key r : Point) : Bool :=
  Secp256k1.satisfiesCurveEquation key && Secp256k1.satisfiesCurveEquation r &&
    Secp256k1.add r (times c key) = some (times z Secp256k1.generator)

/-- Merkle proofs and signatures verify as the contract verifies them, up to the two hashes. -/
def libraries : ContractLibraries where
  keccak256 := keccak256
  processProof proof leaf := proof.foldl (hashPair keccak256) leaf
  merkleVerify proof root leaf := proof.foldl (hashPair keccak256) leaf = root
  frostVerify key σ message := σ.z.val < Secp256k1.N &&
    schnorr σ.z.val (challenge σ.r key message) key σ.r
  frostVerifyShare key r participant share message := share.z.val < Secp256k1.N &&
    schnorr share.z.val (challenge r key message * share.l.val % Secp256k1.N) participant share.r

/-- They do what OpenZeppelin documents. -/
theorem libraries_sortedPairs : libraries.SortedPairs :=
  ⟨fun _ _ => rfl, fun _ _ _ => decide_eq_true_iff⟩

/-- One participant's commitment call. -/
def commitCall (account : Address) : Address × Coordinator.Call :=
  (account, .keyGenAndCommit group.root group.count group.threshold group.context
    (((genesis.participateAs keccak256 account).map (·.2)).getD []) commitment)

/-- The calls of the genesis key generation up to the last secret share. -/
def sharingCalls : List (Address × Coordinator.Call) :=
  [1, 2, 3, 4].map commitCall ++ [1, 2, 3, 4].map (fun a => (a, .keyGenSecretShare group.id share))

/-- Everyone confirms. -/
def confirmCalls : List (Address × Coordinator.Call) :=
  [1, 2, 3, 4].map (fun a => (a, .keyGenConfirm group.id))

/-- The calls of the genesis key generation. -/
def genesisCalls : List (Address × Coordinator.Call) := sharingCalls ++ confirmCalls

/-- The genesis key generation, with complaints against the fourth validator, each answered
before the next is filed. -/
def complaintCalls (plaintiffs : List Address) : List (Address × Coordinator.Call) :=
  sharingCalls ++ plaintiffs.flatMap (fun p =>
    [(p, .keyGenComplain group.id 4), (4, .keyGenComplaintResponse group.id p 0)]) ++ confirmCalls

/-- The commitments of the first regular epoch's key generation. -/
def epochCalls : List (Address × Coordinator.Call) :=
  [1, 2, 3, 4].map fun a => (a, .keyGenAndCommit (epochGroup ∅).root (epochGroup ∅).count
    (epochGroup ∅).threshold (epochGroup ∅).context
    (((genesis.participateAs keccak256 a).map (·.2)).getD []) commitment)

/-- A complaint in it against the fourth validator. -/
def complainCall (plaintiff : Address) : Address × Coordinator.Call :=
  (plaintiff, .keyGenComplain (epochGroup ∅).id 4)

/-- The fourth validator's answer. -/
def answerCall (plaintiff : Address) : Address × Coordinator.Call :=
  (4, .keyGenComplaintResponse (epochGroup ∅).id plaintiff 0)

/-- Three complaints against the fourth validator, the first two answered. -/
def answeredCalls : List (Address × Coordinator.Call) :=
  epochCalls ++ [complainCall 1, answerCall 1, complainCall 2, answerCall 2, complainCall 3]

/-- Two complaints against the fourth validator, the second answered. -/
def lateCalls : List (Address × Coordinator.Call) :=
  epochCalls ++ [1, 2, 3, 4].map (fun a => (a, .keyGenSecretShare (epochGroup ∅).id share)) ++
    [complainCall 1, complainCall 2, answerCall 2]

/-- A tree with two words at the bottom of its left edge. -/
def corner (w v : B256) : Nat → HashTree B256
  | 0 => .node (.word w) (.word v)
  | n + 1 => .node (corner w v n) (.word 0)

/-- A tree with two words at the depth of a nonce. -/
def cornerTree (w v : B256) : HashTree B256 := corner w v 9

/-- Nothing in it can be built further when zero is no hash. -/
theorem cornerTree_full {hash : Sym2 B256 → B256} (h : ∀ p, hash p ≠ 0) (w v : B256) :
    (cornerTree w v).Full hash chunkBits := by
  have hall : ∀ n, (corner w v n).Full hash (n + 1) := by
    intro n
    induction n with
    | zero => exact ⟨trivial, trivial⟩
    | succ n ih => exact ⟨ih, h⟩
  exact hall 9

/-- Another nonce pair. -/
def otherNonces : SignNonces := ⟨point, ⟨point.x, Fin.ofNat _ (Secp256k1.P - point.y.val)⟩⟩

/-- The root of a tree with a leaf of either pair for the first offset. -/
def twoLeaves : B256 :=
  (cornerTree (NonceCommitmentSet.leaf libraries 0 signNonces)
    (NonceCommitmentSet.leaf libraries 0 otherNonces)).root (pairHash keccak256)

/-- The commitment of a selection of three signers, each with the generator for its nonce. -/
def selectionR : Point := times 3 Secp256k1.generator

/-- The coefficients of the three signers sum to four, the discrete logarithm of the group key; a
fourth participant has a leaf in the selection too, with coefficient zero. -/
def signatureShare (a : Address) : SignatureShare :=
  let l := if a = 3 then 2 else if a = 4 then 0 else 1
  ⟨Secp256k1.generator, Fin.ofNat _ (1 + challenge selectionR (times 4 Secp256k1.generator) 7 * l),
    Fin.ofNat _ l⟩

/-- A participant's leaf of the selection. -/
def selectionLeaf (a : Address) : B256 :=
  SignatureShares.leaf libraries a (signatureShare a) selectionR

/-- The selection. -/
def selection : SignSelection where
  r := selectionR
  root := hashPair keccak256 (hashPair keccak256 (selectionLeaf 1) (selectionLeaf 2))
    (hashPair keccak256 (selectionLeaf 3) (selectionLeaf 4))

/-- A participant's share of the first signature; `sibling` is its neighbour in the selection. -/
def shareCall (a sibling left right : Address) : Address × Coordinator.Call :=
  (a, .signShare (Coordinator.signatureId group.id 0) selection (signatureShare a)
    [selectionLeaf sibling, hashPair keccak256 (selectionLeaf left) (selectionLeaf right)])

/-- The third signer completes it. -/
def thirdShare : Address × Coordinator.Call := shareCall 3 4 1 2

end Toy

end Safenet
