/-
# MultiSend batches

The sentinel engine reads a Safe transaction as the calls the Safe makes: the transaction
itself, or, for a delegatecall to a known MultiSend deployment, the sub-calls packed in its
payload (`contracts/multi_send.rs`).  This file has the packed format, the decoder, and the
loop the deployed contract runs over the same bytes in memory.

The decoder and the contract walk the payload differently.  The contract compares a memory
offset, which starts one word in, with the payload's length, does not stop at the end of the
payload, and reverts on an operation byte it does not know.  The decoder wants every entry
whole.  `issues_iff` says that where the decoder answers, the two agree on every
call, whatever the memory after the payload holds.

alloy's argument decoders are the fields of `Abi`; a selector check in front of them is
`SolCall.abiDecode`.
-/
import Safenet.Basic

namespace Safenet

/-- `Operation::try_from`. -/
def Operation.ofByte : Nat → Option Operation
  | 0 => some .call
  | 1 => some .delegatecall
  | _ => none

/-- `SafeTransaction::default`. -/
def SafeTransaction.default : SafeTransaction :=
  ⟨0, 0, 0, 0, [], .call, 0, 0, 0, 0, 0, 0⟩

namespace Engine

/-! ## 1. Calls and their codecs -/

/-- The four bytes calldata is dispatched on, as a number. -/
abbrev Selector : Type := Fin (2 ^ 32)

/-- `data.starts_with(&SELECTOR)`. -/
def startsWith (data : Bytes) (selector : Selector) : Bool :=
  data.take 4 == beBytes 4 selector.val

theorem startsWith_iff {data : Bytes} {s : Selector} :
    startsWith data s = true ↔ data.take 4 = beBytes 4 s.val := by
  rw [startsWith, beq_iff_eq]

/-- Calldata starts with one selector only. -/
theorem startsWith_unique {data : Bytes} {s t : Selector} (hs : startsWith data s = true)
    (ht : startsWith data t = true) : s = t := by
  have h := beBytes_mod ((startsWith_iff.mp hs).symm.trans (startsWith_iff.mp ht))
  have h256 : 256 ^ 4 = 2 ^ 32 := by decide
  rw [h256, Nat.mod_eq_of_lt s.isLt, Nat.mod_eq_of_lt t.isLt] at h
  exact Fin.ext h

theorem ne_nil_of_startsWith {data : Bytes} {s : Selector} (h : startsWith data s = true) :
    data ≠ [] := by
  rintro rfl
  have hlen := congrArg List.length (startsWith_iff.mp h)
  rw [length_beBytes] at hlen
  exact absurd hlen (by decide)

/-- A `sol!` call type: its selector and alloy's decoder of its arguments. -/
structure SolCall (α : Type) where
  selector : Selector
  decodeArgs : Bytes → Option α

/-- `SolCall::abi_decode`: calldata that starts with the selector, then the arguments. -/
def SolCall.abiDecode {α : Type} (call : SolCall α) (data : Bytes) : Option α :=
  if startsWith data call.selector then call.decodeArgs (data.drop 4) else none

theorem SolCall.startsWith_of_abiDecode {α : Type} {call : SolCall α} {data : Bytes} {a : α}
    (h : call.abiDecode data = some a) : startsWith data call.selector = true := by
  by_contra hs
  rw [SolCall.abiDecode, if_neg hs] at h
  exact absurd h (by simp)

/-- Calldata of another selector does not decode. -/
theorem SolCall.abiDecode_eq_none {α : Type} {call : SolCall α} {data : Bytes} {s : Selector}
    (hs : startsWith data s = true) (hne : s ≠ call.selector) : call.abiDecode data = none :=
  if_neg fun h => hne (startsWith_unique hs h)

theorem SolCall.abiDecode_nil {α : Type} (call : SolCall α) : call.abiDecode [] = none :=
  if_neg fun h => ne_nil_of_startsWith h rfl

/-! The selectors of `bindings.rs`, each the start of the hash of the signature its `sol!`
block declares. -/

namespace Selectors

def addOwnerWithThreshold : Selector := 0x0d582f13
def removeOwner : Selector := 0xf8dc5dd9
def swapOwner : Selector := 0xe318b52b
def changeThreshold : Selector := 0x694e80c3
def disableModule : Selector := 0xe009cfde
def migrateSingleton : Selector := 0xf6682ab0
def migrateWithFallbackHandler : Selector := 0xed007fc6
def migrateL2Singleton : Selector := 0x07f464a4
def migrateL2WithFallbackHandler : Selector := 0x68cb3d94
def signMessage : Selector := 0x85a5affe
def performCreate : Selector := 0x4c8c9ea1
def performCreate2 : Selector := 0x4847be6f
def announceTransaction : Selector := 0x7b328c10
def cancelAnnouncement : Selector := 0xdd4647a1
def setFallbackHandler : Selector := 0xf08a0323
def setGuard : Selector := 0xe19a9dd9
def enableModule : Selector := 0x610b5925
def setModuleGuard : Selector := 0xe068df37
def execTransaction : Selector := 0x6a761202
def multiSend : Selector := 0x8d80ff0a
def transfer : Selector := 0xa9059cbb
def transferFrom : Selector := 0x23b872dd
def approve : Selector := 0x095ea7b3
def setApprovalForAll : Selector := 0xa22cb465
def safeTransferFrom0 : Selector := 0x42842e0e
def safeTransferFrom1 : Selector := 0xb88d4fde
def safeTransferFrom : Selector := 0xf242432a
def safeBatchTransferFrom : Selector := 0x2eb2c2d6
def stake : Selector := 0xadc9772e
def claim : Selector := 0x1d7d4ebc
def setPreSignature : Selector := 0xec6cb13f
def createWithContext : Selector := 0x0d0d9800

end Selectors

/-- The fields of `createWithContext`'s arguments that the checks read: the order's handler
and static input, and the factory. -/
structure CreateWithContext where
  handler : Address
  staticInput : Bytes
  factory : Address
  deriving DecidableEq

/-- The fields of a TWAP order that the checks read. -/
structure TwapData where
  sellToken : Address
  receiver : Address
  partSellAmount : U256
  n : U256
  deriving DecidableEq

/-- What alloy decodes from the arguments of each call, and from a static TWAP input.  A
payload decoded out of calldata is part of it, and has a length that fits `usize`; the
arguments of a `transfer` come back from their own encoding. -/
structure Abi where
  setFallbackHandler : Bytes → Option Address
  setGuard : Bytes → Option Address
  enableModule : Bytes → Option Address
  setModuleGuard : Bytes → Option Address
  execTransaction : Bytes → Option Unit
  multiSend : Bytes → Option Bytes
  /-- `(to, amount)`. -/
  transfer : Bytes → Option (Address × U256)
  /-- `(from, to, amount)`. -/
  transferFrom : Bytes → Option (Address × Address × U256)
  /-- `(spender, amount)`. -/
  approve : Bytes → Option (Address × U256)
  /-- `(operator, approved)`. -/
  setApprovalForAll : Bytes → Option (Address × Bool)
  /-- `(to, tokenId)`, for either overload. -/
  safeTransferFrom0 : Bytes → Option (Address × U256)
  safeTransferFrom1 : Bytes → Option (Address × U256)
  /-- `(to, id, amount)`. -/
  safeTransferFrom : Bytes → Option (Address × U256 × U256)
  /-- `(to, ids, amounts)`. -/
  safeBatchTransferFrom : Bytes → Option (Address × List U256 × List U256)
  /-- `amount`. -/
  stake : Bytes → Option U256
  /-- `account`. -/
  claim : Bytes → Option Address
  /-- `(orderUid, signed)`. -/
  setPreSignature : Bytes → Option (Bytes × Bool)
  createWithContext : Bytes → Option CreateWithContext
  twapData : Bytes → Option TwapData
  /-- The encoding of `transfer`'s `(to, amount)`. -/
  encodeTransfer : Address → U256 → Bytes
  multiSend_length : ∀ args payload, multiSend args = some payload →
    payload.length ≤ args.length
  multiSend_usize : ∀ args payload, multiSend args = some payload → payload.length < 2 ^ 64
  transfer_encodeTransfer : ∀ recipient amount,
    transfer (encodeTransfer recipient amount) = some (recipient, amount)

namespace Abi

variable (A : Abi)

def setFallbackHandlerCall : SolCall Address := ⟨Selectors.setFallbackHandler, A.setFallbackHandler⟩
def setGuardCall : SolCall Address := ⟨Selectors.setGuard, A.setGuard⟩
def enableModuleCall : SolCall Address := ⟨Selectors.enableModule, A.enableModule⟩
def setModuleGuardCall : SolCall Address := ⟨Selectors.setModuleGuard, A.setModuleGuard⟩
def execTransactionCall : SolCall Unit := ⟨Selectors.execTransaction, A.execTransaction⟩
def multiSendCall : SolCall Bytes := ⟨Selectors.multiSend, A.multiSend⟩
def transferCall : SolCall (Address × U256) := ⟨Selectors.transfer, A.transfer⟩
def transferFromCall : SolCall (Address × Address × U256) := ⟨Selectors.transferFrom, A.transferFrom⟩
def approveCall : SolCall (Address × U256) := ⟨Selectors.approve, A.approve⟩
def setApprovalForAllCall : SolCall (Address × Bool) := ⟨Selectors.setApprovalForAll, A.setApprovalForAll⟩
def safeTransferFrom0Call : SolCall (Address × U256) := ⟨Selectors.safeTransferFrom0, A.safeTransferFrom0⟩
def safeTransferFrom1Call : SolCall (Address × U256) := ⟨Selectors.safeTransferFrom1, A.safeTransferFrom1⟩
def safeTransferFromCall : SolCall (Address × U256 × U256) := ⟨Selectors.safeTransferFrom, A.safeTransferFrom⟩
def safeBatchTransferFromCall : SolCall (Address × List U256 × List U256) :=
  ⟨Selectors.safeBatchTransferFrom, A.safeBatchTransferFrom⟩
def stakeCall : SolCall U256 := ⟨Selectors.stake, A.stake⟩
def claimCall : SolCall Address := ⟨Selectors.claim, A.claim⟩
def setPreSignatureCall : SolCall (Bytes × Bool) := ⟨Selectors.setPreSignature, A.setPreSignature⟩
def createWithContextCall : SolCall CreateWithContext := ⟨Selectors.createWithContext, A.createWithContext⟩

/-- `transferCall { to, amount }.abi_encode()`. -/
def transferCallEncode (recipient : Address) (amount : U256) : Bytes :=
  beBytes 4 Selectors.transfer.val ++ A.encodeTransfer recipient amount

theorem transferCall_encode (recipient : Address) (amount : U256) :
    A.transferCall.abiDecode (A.transferCallEncode recipient amount) =
      some (recipient, amount) := by
  have hs : startsWith (A.transferCallEncode recipient amount) A.transferCall.selector = true := by
    rw [startsWith_iff, transferCallEncode, List.take_left' (length_beBytes 4 _)]
    rfl
  rw [SolCall.abiDecode, if_pos hs, transferCallEncode, List.drop_left' (length_beBytes 4 _)]
  exact A.transfer_encodeTransfer recipient amount

end Abi

/-! ## 2. The decoder -/

/-- `MultiSendVersion`. -/
inductive MultiSendVersion where
  | legacy
  /-- From v1.5.0 on a zero `to` means a self-call. -/
  | v150Plus
  deriving DecidableEq

/-- A deployed MultiSend contract. -/
structure Deployment where
  address : Address
  version : MultiSendVersion
  allowsDelegateCalls : Bool
  deriving DecidableEq

/-- `DEPLOYMENTS`. -/
def deployments : List Deployment :=
  [⟨0x218543288004CD07832472D464648173c77D7eB7, .v150Plus, true⟩,
   ⟨0xA83c336B20401Af773B6219BA5027174338D1836, .v150Plus, false⟩,
   ⟨0x38869bf66a61cF6bDB996A6aE40D5853Fd43B526, .legacy, true⟩,
   ⟨0x9641d764fc13c8B624c04430C7356C1C7C8102e2, .legacy, false⟩,
   ⟨0xA238CBeb142c10Ef7Ad8442C6D1f9E89e07e7761, .legacy, true⟩,
   ⟨0x40A2aCCbd92BCA938b02010E17A5b8929b49130D, .legacy, false⟩,
   ⟨0x998739BFdAAdde7C933B942a68053933098f9EDa, .legacy, true⟩,
   ⟨0xA1dabEF33b3B82c7814B6D82A79e50F4AC44102B, .legacy, false⟩]

/-- `known_deployment`. -/
def knownDeployment (address : Address) : Option (MultiSendVersion × Bool) :=
  (deployments.find? fun d => d.address = address).map fun d => (d.version, d.allowsDelegateCalls)

theorem knownDeployment_eq_some {address : Address} {version : MultiSendVersion} {allows : Bool}
    (h : knownDeployment address = some (version, allows)) :
    ⟨address, version, allows⟩ ∈ deployments := by
  obtain ⟨d, hd, heq⟩ := Option.map_eq_some_iff.mp h
  have haddr : d.address = address := by simpa using List.find?_some hd
  have hmem := List.mem_of_find?_eq_some hd
  rw [Prod.mk.injEq] at heq
  rwa [← haddr, ← heq.1, ← heq.2]

/-- Every address of the table is deployed once. -/
theorem knownDeployment_of_mem {d : Deployment} (h : d ∈ deployments) :
    knownDeployment d.address = some (d.version, d.allowsDelegateCalls) := by
  revert d
  decide

/-- `Cursor::read`: the next `len` bytes, and what is left. -/
def Cursor.read (cursor : Bytes) (len : Nat) : Option (Bytes × Bytes) :=
  if len ≤ cursor.length then some (cursor.take len, cursor.drop len) else none

/-- One turn of the loop of `decode_multi_send`: a sub-transaction and the cursor after it. -/
def decodeEntry (safe : Address) (version : MultiSendVersion) (cursor : Bytes) :
    Option (SafeTransaction × Bytes) := do
  let (operation, cursor) ← Cursor.read cursor 1
  let operation ← Operation.ofByte (beNat operation)
  let («to», cursor) ← Cursor.read cursor 20
  let (value, cursor) ← Cursor.read cursor 32
  let (dataLen, cursor) ← Cursor.read cursor 32
  -- `usize::try_from`
  if beNat dataLen < 2 ^ 64 then
    let (data, cursor) ← Cursor.read cursor (beNat dataLen)
    let «to» : Address := Fin.ofNat _ (beNat «to»)
    let «to» := if version = .v150Plus ∧ «to» = 0 then safe else «to»
    some ({ SafeTransaction.default with
      safe := safe, «to» := «to», value := Fin.ofNat _ (beNat value), data := data,
      operation := operation }, cursor)
  else none

/-- An entry is an operation byte, an address, a value and a length, and then its data. -/
structure Entry (safe : Address) (version : MultiSendVersion) (cursor : Bytes)
    (tx : SafeTransaction) : Prop where
  safe_eq : tx.safe = safe
  operation_eq : Operation.ofByte (beNat (cursor.take 1)) = some tx.operation
  to_eq : tx.to =
    if version = .v150Plus ∧ Fin.ofNat (2 ^ 160) (beNat ((cursor.drop 1).take 20)) = 0 then safe
    else Fin.ofNat (2 ^ 160) (beNat ((cursor.drop 1).take 20))
  value_eq : tx.value = Fin.ofNat (2 ^ 256) (beNat ((cursor.drop 21).take 32))
  length_eq : beNat ((cursor.drop 53).take 32) = tx.data.length
  length_lt : tx.data.length < 2 ^ 64
  data_eq : tx.data = (cursor.drop 85).take tx.data.length
  whole : 85 + tx.data.length ≤ cursor.length

theorem Cursor.read_eq_some {cursor : Bytes} {len : Nat} {r rest : Bytes} :
    Cursor.read cursor len = some (r, rest) ↔
      len ≤ cursor.length ∧ cursor.take len = r ∧ cursor.drop len = rest := by
  unfold Cursor.read
  split <;> simp_all

theorem decodeEntry_eq_some {safe : Address} {version : MultiSendVersion} {cursor rest : Bytes}
    {tx : SafeTransaction} (h : decodeEntry safe version cursor = some (tx, rest)) :
    Entry safe version cursor tx ∧ rest = cursor.drop (85 + tx.data.length) := by
  simp only [decodeEntry, Option.bind_eq_bind, Option.bind_eq_some_iff, Prod.exists,
    Cursor.read_eq_some] at h
  obtain ⟨op, c1, ⟨h1, rfl, rfl⟩, operation, hop, addr, c2, ⟨h2, rfl, rfl⟩, value, c3,
    ⟨h3, rfl, rfl⟩, len, c4, ⟨h4, rfl, rfl⟩, h⟩ := h
  split at h
  case isFalse => exact absurd h (by simp)
  case isTrue hlen =>
    simp only [Option.bind_eq_some_iff, Prod.exists, Cursor.read_eq_some, Option.some.injEq,
      Prod.mk.injEq] at h
    obtain ⟨data, c5, ⟨h5, hdata, hrest⟩, rfl, rfl⟩ := h
    simp only [List.drop_drop, Nat.reduceAdd, List.length_drop] at *
    have hd : data.length = beNat ((cursor.drop 53).take 32) := by
      rw [← hdata, List.length_take, List.length_drop]
      omega
    refine ⟨⟨rfl, hop, rfl, rfl, hd.symm, hd ▸ hlen, ?_, ?_⟩, ?_⟩
    · rw [hd, hdata]
    · rw [hd]; omega
    · rw [hd, ← hrest]

theorem Entry.rest_lt {safe : Address} {version : MultiSendVersion} {cursor : Bytes}
    {tx : SafeTransaction} (e : Entry safe version cursor tx) :
    (cursor.drop (85 + tx.data.length)).length < cursor.length := by
  have := e.whole
  rw [List.length_drop]
  omega

/-- `decode_multi_send`. -/
def decodeMultiSend (safe : Address) (version : MultiSendVersion) (cursor : Bytes) :
    Option (List SafeTransaction) :=
  if cursor = [] then some [] else
    match _h : decodeEntry safe version cursor with
    | none => none
    | some (tx, rest) => (decodeMultiSend safe version rest).map (tx :: ·)
termination_by cursor.length
decreasing_by
  obtain ⟨e, rfl⟩ := decodeEntry_eq_some _h
  exact e.rest_lt

@[simp] theorem decodeMultiSend_nil (safe : Address) (version : MultiSendVersion) :
    decodeMultiSend safe version [] = some [] := by
  rw [decodeMultiSend, if_pos rfl]

theorem decodeMultiSend_eq_nil {safe : Address} {version : MultiSendVersion} {cursor : Bytes}
    (h : decodeMultiSend safe version cursor = some []) : cursor = [] := by
  by_contra hne
  rw [decodeMultiSend, if_neg hne] at h
  split at h
  · exact absurd h (by simp)
  · simp at h

theorem decodeMultiSend_eq_cons {safe : Address} {version : MultiSendVersion} {cursor : Bytes}
    {tx : SafeTransaction} {subs : List SafeTransaction} :
    decodeMultiSend safe version cursor = some (tx :: subs) ↔
      ∃ rest, decodeEntry safe version cursor = some (tx, rest) ∧
        decodeMultiSend safe version rest = some subs := by
  by_cases hnil : cursor = []
  · subst hnil
    constructor
    · intro h
      simp at h
    · rintro ⟨rest, h, -⟩
      have hwhole := (decodeEntry_eq_some h).1.whole
      simp at hwhole
  · rw [decodeMultiSend, if_neg hnil]
    split
    · next heq => simp [heq]
    · next heq => simp [heq, and_left_comm]

/-- What the decoder answers, entry by entry. -/
theorem mem_decodeMultiSend {safe : Address} {version : MultiSendVersion} {cursor : Bytes}
    {subs : List SafeTransaction} (h : decodeMultiSend safe version cursor = some subs)
    {sub : SafeTransaction} (hsub : sub ∈ subs) :
    ∃ k, Entry safe version (cursor.drop k) sub := by
  induction subs generalizing cursor with
  | nil => exact absurd hsub (by simp)
  | cons tx subs ih =>
    obtain ⟨rest, he, hrest⟩ := decodeMultiSend_eq_cons.mp h
    obtain ⟨e, rfl⟩ := decodeEntry_eq_some he
    rcases List.mem_cons.mp hsub with rfl | hmem
    · exact ⟨0, e⟩
    · obtain ⟨k, hk⟩ := ih hrest hmem
      rw [List.drop_drop] at hk
      exact ⟨_, hk⟩

/-- A call made with the Safe's authority. -/
structure Call where
  operation : Operation
  «to» : Address
  value : U256
  data : Bytes
  deriving DecidableEq

/-- The call a transaction asks the Safe for. -/
def callOf (tx : SafeTransaction) : Call := ⟨tx.operation, tx.to, tx.value, tx.data⟩

/-- The packed encoding of a call. -/
def Call.pack (c : Call) : Bytes :=
  beBytes 1 c.operation.toNat ++ (beBytes 20 c.to.val ++ (beBytes 32 c.value.val ++
    (beBytes 32 c.data.length ++ c.data)))

/-- The sub-transaction the decoder makes of a call. -/
def Call.subTransaction (safe : Address) (version : MultiSendVersion) (c : Call) :
    SafeTransaction :=
  { SafeTransaction.default with
    safe := safe, «to» := if version = .v150Plus ∧ c.to = 0 then safe else c.to,
    value := c.value, data := c.data, operation := c.operation }

theorem Cursor.read_append {xs ys : Bytes} {len : Nat} (h : xs.length = len) :
    Cursor.read (xs ++ ys) len = some (xs, ys) := by
  rw [Cursor.read_eq_some]
  exact ⟨by simp [← h], List.take_left' h, List.drop_left' h⟩

theorem decodeEntry_pack (safe : Address) (version : MultiSendVersion) {c : Call}
    (hlen : c.data.length < 2 ^ 64) (rest : Bytes) :
    decodeEntry safe version (c.pack ++ rest) = some (c.subTransaction safe version, rest) := by
  have hop : Operation.ofByte (beNat (beBytes 1 c.operation.toNat)) = some c.operation := by
    cases c.operation <;> rfl
  have hto : (Fin.ofNat (2 ^ 160) (beNat (beBytes 20 c.to.val)) : Address) = c.to := by
    have h256 : 256 ^ 20 = 2 ^ 160 := by decide
    rw [beNat_beBytes, h256, Nat.mod_eq_of_lt c.to.isLt]
    exact Fin.ofNat_val_eq_self c.to
  have hvalue : (Fin.ofNat (2 ^ 256) (beNat (beBytes 32 c.value.val)) : U256) = c.value := by
    have h256 : 256 ^ 32 = 2 ^ 256 := by decide
    rw [beNat_beBytes, h256, Nat.mod_eq_of_lt c.value.isLt]
    exact Fin.ofNat_val_eq_self c.value
  have hdata : beNat (beBytes 32 c.data.length) = c.data.length := by
    rw [beNat_beBytes, Nat.mod_eq_of_lt (by omega)]
  simp only [decodeEntry, Call.pack, List.append_assoc, Option.bind_eq_bind, Option.bind_some,
    Cursor.read_append (length_beBytes _ _), hop, hto, hvalue, hdata, if_pos hlen,
    Cursor.read_append (rfl : c.data.length = c.data.length)]
  rfl

/-- Decoding gives a packed list back. -/
theorem decodeMultiSend_flatMap_pack (safe : Address) (version : MultiSendVersion)
    {calls : List Call} (hlen : ∀ c ∈ calls, c.data.length < 2 ^ 64) :
    decodeMultiSend safe version (calls.flatMap Call.pack) =
      some (calls.map (Call.subTransaction safe version)) := by
  induction calls with
  | nil => simp
  | cons c calls ih =>
    rw [List.flatMap_cons, List.map_cons, decodeMultiSend_eq_cons]
    exact ⟨_, decodeEntry_pack safe version (hlen c (by simp)) _,
      ih fun c hc => hlen c (by simp [hc])⟩

/-- `decode_multi_send_call`. -/
def Abi.decodeMultiSendCall (A : Abi) (tx : SafeTransaction) :
    Option (List SafeTransaction × Bool) :=
  if tx.operation ≠ .delegatecall then none else do
    let (version, allowsDelegateCalls) ← knownDeployment tx.to
    let payload ← A.multiSendCall.abiDecode tx.data
    let subTxs ← decodeMultiSend tx.safe version payload
    some (subTxs, allowsDelegateCalls)

/-- A batch: a delegatecall to a deployment, with a payload that decodes. -/
structure Batch (A : Abi) (tx : SafeTransaction) (version : MultiSendVersion) (allows : Bool)
    (payload : Bytes) (subs : List SafeTransaction) : Prop where
  operation : tx.operation = .delegatecall
  known : knownDeployment tx.to = some (version, allows)
  data : A.multiSendCall.abiDecode tx.data = some payload
  subs : decodeMultiSend tx.safe version payload = some subs

theorem decodeMultiSendCall_eq_some {A : Abi} {tx : SafeTransaction} {subs : List SafeTransaction}
    {allows : Bool} :
    A.decodeMultiSendCall tx = some (subs, allows) ↔
      ∃ version payload, Batch A tx version allows payload subs := by
  constructor
  · intro h
    unfold Abi.decodeMultiSendCall at h
    split at h
    · exact absurd h (by simp)
    · next hop =>
      simp only [Option.bind_eq_bind, Option.bind_eq_some_iff, Prod.exists, Option.some.injEq,
        Prod.mk.injEq] at h
      obtain ⟨version, _, hknown, payload, hdata, _, hsubs, rfl, rfl⟩ := h
      exact ⟨version, payload, not_not.mp hop, hknown, hdata, hsubs⟩
  · rintro ⟨version, payload, b⟩
    unfold Abi.decodeMultiSendCall
    rw [if_neg (not_not.mpr b.operation)]
    simp only [b.known, b.data, b.subs, Option.bind_eq_bind, Option.bind_some]

/-- A plain call is never a batch. -/
theorem decodeMultiSendCall_of_call {A : Abi} {tx : SafeTransaction} (h : tx.operation = .call) :
    A.decodeMultiSendCall tx = none := by
  unfold Abi.decodeMultiSendCall
  rw [if_pos (by rw [h]; decide)]

/-- The calldata of a sub-call is shorter than the batch's. -/
theorem data_lt_of_decodeMultiSendCall {A : Abi} {tx sub : SafeTransaction}
    {subs : List SafeTransaction} {allows : Bool}
    (h : A.decodeMultiSendCall tx = some (subs, allows)) (hsub : sub ∈ subs) :
    sub.data.length < tx.data.length := by
  obtain ⟨version, payload, b⟩ := decodeMultiSendCall_eq_some.mp h
  obtain ⟨k, e⟩ := mem_decodeMultiSend b.subs hsub
  have hwhole := e.whole
  have hargs : payload.length ≤ (tx.data.drop 4).length := by
    refine A.multiSend_length _ _ ?_
    rw [← b.data, SolCall.abiDecode, if_pos (SolCall.startsWith_of_abiDecode b.data)]
    rfl
  rw [List.length_drop] at hwhole hargs
  omega

/-- The sub-calls run for the batch's Safe. -/
theorem safe_of_decodeMultiSendCall {A : Abi} {tx sub : SafeTransaction}
    {subs : List SafeTransaction} {allows : Bool}
    (h : A.decodeMultiSendCall tx = some (subs, allows)) (hsub : sub ∈ subs) :
    sub.safe = tx.safe := by
  obtain ⟨version, payload, b⟩ := decodeMultiSendCall_eq_some.mp h
  obtain ⟨k, e⟩ := mem_decodeMultiSend b.subs hsub
  exact e.safe_eq

/-- `sub_transactions`: the transaction itself, or each sub-call of a batch. -/
def Abi.subTransactions (A : Abi) (tx : SafeTransaction) : List SafeTransaction :=
  ((A.decodeMultiSendCall tx).map Prod.fst).getD [tx]

theorem subTransactions_of_call {A : Abi} {tx : SafeTransaction} (h : tx.operation = .call) :
    A.subTransactions tx = [tx] := by
  rw [Abi.subTransactions, decodeMultiSendCall_of_call h]
  rfl

/-! ## 3. The loop of the deployed contract -/

/-- The bytes of memory from `offset` on. -/
def slice (m : Nat → UInt8) (offset len : Nat) : Bytes :=
  (List.range len).map fun k => m (offset + k)

/-- `mload`. -/
def mload (m : Nat → UInt8) (offset : Nat) : Nat := beNat (slice m offset 32)

/-- Memory from the payload's pointer on: its length word, its bytes, and then whatever was
there. -/
structure PayloadMemory (payload : Bytes) where
  byte : Nat → UInt8
  byte_payload : ∀ k (h : k < payload.length), byte (0x20 + k) = payload[k]

/-- The call the contract reads at offset `i`, running for `safe`; nothing where it reverts. -/
def Deployment.callAt (d : Deployment) (safe : Address) (m : Nat → UInt8) (i : Nat) :
    Option Call :=
  -- `shr(0xf8, ..)`, `shr(0x60, ..)`
  let operation := mload m i / 2 ^ 248
  let «to» : Address := Fin.ofNat _ (mload m (i + 0x01) / 2 ^ 96)
  let «to» := if d.version = .v150Plus ∧ «to» = 0 then safe else «to»
  let value : U256 := Fin.ofNat _ (mload m (i + 0x15))
  let data := slice m (i + 0x55) (mload m (i + 0x35))
  match operation with
  | 0 => some ⟨.call, «to», value, data⟩
  | 1 => if d.allowsDelegateCalls then some ⟨.delegatecall, «to», value, data⟩ else none
  | _ => none

/-- The calls the loop issues from offset `i` on, whichever of them succeed. -/
inductive Issues (d : Deployment) (safe : Address) (m : Nat → UInt8) (length : Nat) :
    Nat → Call → Prop
  | here {i : Nat} {c : Call} : i < length → d.callAt safe m i = some c →
      Issues d safe m length i c
  | next {i : Nat} {c c' : Call} : i < length → d.callAt safe m i = some c →
      Issues d safe m length ((i + (0x55 + mload m (i + 0x35))) % 2 ^ 256) c' →
      Issues d safe m length i c'

theorem slice_add (m : Nat → UInt8) (offset a b : Nat) :
    slice m offset (a + b) = slice m offset a ++ slice m (offset + a) b := by
  simp [slice, List.range_add, Function.comp_def, Nat.add_assoc]

@[simp] theorem length_slice (m : Nat → UInt8) (offset len : Nat) :
    (slice m offset len).length = len := by
  simp [slice]

/-- The leading bytes of a word are what a right shift leaves of it. -/
theorem mload_div (m : Nat → UInt8) (offset : Nat) {a b : Nat} (h : a + b = 32) :
    mload m offset / 256 ^ b = beNat (slice m offset a) := by
  have hdiv := beNat_append_div (slice m offset a) (slice m (offset + a) b)
  rwa [length_slice, ← slice_add, h] at hdiv

theorem PayloadMemory.slice_eq {payload : Bytes} (m : PayloadMemory payload) {k len : Nat}
    (h : k + len ≤ payload.length) :
    slice m.byte (0x20 + k) len = (payload.drop k).take len := by
  have hlen : ((payload.drop k).take len).length = len := by
    rw [List.length_take, List.length_drop]
    omega
  refine List.ext_getElem (by rw [length_slice, hlen]) fun i hi _ => ?_
  rw [length_slice] at hi
  simp only [slice, List.getElem_map, List.getElem_range, List.getElem_take, List.getElem_drop]
  rw [Nat.add_assoc, m.byte_payload (k + i) (by omega)]

section
variable {d : Deployment} {safe : Address} {payload : Bytes} {k : Nat} {tx : SafeTransaction}

/-- The contract reads the length the decoder read. -/
theorem Entry.mload_length (e : Entry safe d.version (payload.drop k) tx)
    (m : PayloadMemory payload) : mload m.byte (0x20 + k + 0x35) = tx.data.length := by
  have hwhole := e.whole
  rw [List.length_drop] at hwhole
  rw [mload, Nat.add_assoc, m.slice_eq (by omega), ← e.length_eq, List.drop_drop]

/-- The contract reads the call the decoder read, and reverts on a delegatecall it does not
allow. -/
theorem Entry.callAt_eq (e : Entry safe d.version (payload.drop k) tx)
    (m : PayloadMemory payload)
    (hallow : tx.operation = .delegatecall → d.allowsDelegateCalls = true) :
    d.callAt safe m.byte (0x20 + k) = some (callOf tx) := by
  have hwhole := e.whole
  rw [List.length_drop] at hwhole
  have hop : mload m.byte (0x20 + k) / 2 ^ 248 = beNat ((payload.drop k).take 1) := by
    rw [← m.slice_eq (by omega), ← mload_div m.byte (0x20 + k) (by decide : 1 + 31 = 32)]
    norm_num
  have hto : mload m.byte (0x20 + k + 0x01) / 2 ^ 96 =
      beNat (((payload.drop k).drop 1).take 20) := by
    rw [List.drop_drop, ← m.slice_eq (by omega), Nat.add_assoc,
      ← mload_div m.byte (0x20 + (k + 1)) (by decide : 20 + 12 = 32)]
    norm_num
  have hvalue : mload m.byte (0x20 + k + 0x15) = beNat (((payload.drop k).drop 21).take 32) := by
    rw [List.drop_drop, ← m.slice_eq (by omega), Nat.add_assoc, mload]
  have hdata : slice m.byte (0x20 + k + 0x55) tx.data.length = tx.data := by
    rw [Nat.add_assoc, m.slice_eq (by omega), ← List.drop_drop, ← e.data_eq]
  have hbyte := e.operation_eq
  unfold Deployment.callAt
  simp only [hop, hto, hvalue, e.mload_length m, hdata]
  revert hbyte
  generalize beNat ((payload.drop k).take 1) = b
  intro hbyte
  match b, hbyte with
  | 0, hbyte =>
    have hcall : tx.operation = .call := by simpa [Operation.ofByte] using hbyte.symm
    simp only [callOf, hcall, e.to_eq, e.value_eq]
  | 1, hbyte =>
    have hcall : tx.operation = .delegatecall := by simpa [Operation.ofByte] using hbyte.symm
    simp only [callOf, hcall, e.to_eq, e.value_eq, if_pos (hallow hcall)]
  | _ + 2, hbyte => exact absurd hbyte (by simp [Operation.ofByte])

/-- Where the decoder answers, the contract issues exactly the decoded calls, whatever the
memory after the payload holds: the contract's loop bound stops it at the same entries, and
no entry makes its offset wrap. -/
theorem issues_iff {subs : List SafeTransaction} (m : PayloadMemory payload)
    (husize : payload.length < 2 ^ 64)
    (h : decodeMultiSend safe d.version (payload.drop k) = some subs)
    (hallow : ∀ sub ∈ subs, sub.operation = .delegatecall → d.allowsDelegateCalls = true)
    (hk : k ≤ payload.length) (c : Call) :
    Issues d safe m.byte payload.length (0x20 + k) c ↔ ∃ sub ∈ subs, callOf sub = c := by
  induction subs generalizing k with
  | nil =>
    have hend : payload.length ≤ k := by simpa using decodeMultiSend_eq_nil h
    constructor
    · rintro (⟨hlt, -⟩ | ⟨hlt, -, -⟩) <;> omega
    · rintro ⟨sub, hsub, -⟩
      exact absurd hsub (by simp)
  | cons tx subs ih =>
    obtain ⟨rest, he, hrest⟩ := decodeMultiSend_eq_cons.mp h
    obtain ⟨e, rfl⟩ := decodeEntry_eq_some he
    have hwhole := e.whole
    rw [List.length_drop] at hwhole
    have hat := e.callAt_eq m (hallow tx (by simp))
    have hnext : (0x20 + k + (0x55 + mload m.byte (0x20 + k + 0x35))) % 2 ^ 256 =
        0x20 + (k + (85 + tx.data.length)) := by
      rw [e.mload_length m, Nat.mod_eq_of_lt (by omega)]
      omega
    have hlt : 0x20 + k < payload.length := by omega
    rw [List.drop_drop] at hrest
    have ih := ih hrest (fun sub hsub => hallow sub (by simp [hsub])) (by omega)
    simp only [List.mem_cons, exists_eq_or_imp, ← ih]
    constructor
    · rintro (⟨-, hc⟩ | ⟨-, -, hc⟩)
      · exact .inl (Option.some.inj (hat.symm.trans hc))
      · rw [hnext] at hc
        exact .inr hc
    · rintro (rfl | hc)
      · exact .here hlt hat
      · refine .next hlt hat ?_
        rw [hnext]
        exact hc

end

/-! ## 4. A codec of words

The decoder of the calls whose arguments are single words, and of a payload in its usual
place.  It answers nothing for the other calls with dynamic arguments. -/

/-- Argument number `i` of a call, as a word. -/
def argument (args : Bytes) (i : Nat) : Option Nat :=
  if 32 * (i + 1) ≤ args.length then some (beNat ((args.drop (32 * i)).take 32)) else none

/-- A `bytes` argument at the usual offset, one word in. -/
def bytesArgument (args : Bytes) : Option Bytes := do
  let offset ← argument args 0
  let len ← argument args 1
  if offset = 0x20 ∧ len < 2 ^ 64 ∧ 64 + len ≤ args.length then some ((args.drop 64).take len)
  else none

theorem length_bytesArgument {args payload : Bytes} (h : bytesArgument args = some payload) :
    payload.length < 2 ^ 64 ∧ payload.length ≤ args.length := by
  simp only [bytesArgument, Option.bind_eq_bind, Option.bind_eq_some_iff] at h
  obtain ⟨offset, -, len, -, h⟩ := h
  split at h
  case isFalse => exact absurd h (by simp)
  case isTrue hlen =>
    rw [← Option.some.inj h, List.length_take, List.length_drop]
    omega

theorem argument_append {xs : Bytes} {i : Nat} (h : xs.length = 32 * i) (n : Nat) (ys : Bytes) :
    argument (xs ++ (beBytes 32 n ++ ys)) i = some (n % 2 ^ 256) := by
  rw [argument, if_pos (by simp [h]; omega), List.drop_left' h,
    List.take_left' (length_beBytes 32 n), beNat_beBytes, (by decide : 256 ^ 32 = 2 ^ 256)]

/-- An address and an amount. -/
def twoArguments (args : Bytes) : Option (Address × U256) := do
  some (Fin.ofNat _ (← argument args 0), Fin.ofNat _ (← argument args 1))

theorem twoArguments_beBytes (a : Address) (n : U256) :
    twoArguments (beBytes 32 a.val ++ beBytes 32 n.val) = some (a, n) := by
  have h0 := @argument_append [] 0 rfl a.val (beBytes 32 n.val)
  have h1 := @argument_append _ 1 (length_beBytes 32 a.val) n.val []
  rw [List.nil_append, Nat.mod_eq_of_lt (a.isLt.trans (by decide))] at h0
  rw [List.append_nil, Nat.mod_eq_of_lt n.isLt] at h1
  simp only [twoArguments, h0, h1, Option.bind_eq_bind, Option.bind_some, Fin.ofNat_val_eq_self]

/-- `multiSend(payload)`, encoded. -/
def encodeMultiSend (payload : Bytes) : Bytes :=
  beBytes 4 Selectors.multiSend.val ++ (beBytes 32 0x20 ++ (beBytes 32 payload.length ++ (payload ++
    List.replicate ((32 - payload.length % 32) % 32) 0)))

def Abi.words : Abi where
  setFallbackHandler args := (argument args 0).map (Fin.ofNat _)
  setGuard args := (argument args 0).map (Fin.ofNat _)
  enableModule args := (argument args 0).map (Fin.ofNat _)
  setModuleGuard args := (argument args 0).map (Fin.ofNat _)
  execTransaction args := (argument args 11).map fun _ => ()
  multiSend := bytesArgument
  transfer := twoArguments
  transferFrom args := do
    some (Fin.ofNat _ (← argument args 0), Fin.ofNat _ (← argument args 1),
      Fin.ofNat _ (← argument args 2))
  approve := twoArguments
  setApprovalForAll args := do some (Fin.ofNat _ (← argument args 0), (← argument args 1) ≠ 0)
  safeTransferFrom0 args := do
    some (Fin.ofNat _ (← argument args 1), Fin.ofNat _ (← argument args 2))
  safeTransferFrom1 _ := none
  safeTransferFrom _ := none
  safeBatchTransferFrom _ := none
  stake args := (argument args 1).map (Fin.ofNat _)
  claim args := (argument args 0).map (Fin.ofNat _)
  setPreSignature _ := none
  createWithContext _ := none
  twapData _ := none
  encodeTransfer recipient amount := beBytes 32 recipient.val ++ beBytes 32 amount.val
  multiSend_length _ _ h := (length_bytesArgument h).2
  multiSend_usize _ _ h := (length_bytesArgument h).1
  transfer_encodeTransfer := twoArguments_beBytes

/-- The batch that sends `calls` through a deployment. -/
def batchOf (safe : Address) (d : Deployment) (calls : List Call) : SafeTransaction :=
  { SafeTransaction.default with
    safe := safe, «to» := d.address, operation := .delegatecall,
    data := encodeMultiSend (calls.flatMap Call.pack) }

theorem words_multiSendCall_encode {payload : Bytes} (h : payload.length < 2 ^ 64) :
    Abi.words.multiSendCall.abiDecode (encodeMultiSend payload) = some payload := by
  have hs : startsWith (encodeMultiSend payload) Abi.words.multiSendCall.selector = true := by
    rw [startsWith_iff, encodeMultiSend, List.take_left' (length_beBytes 4 _)]
    rfl
  rw [SolCall.abiDecode, if_pos hs, encodeMultiSend, List.drop_left' (length_beBytes 4 _)]
  have h0 := @argument_append [] 0 rfl 0x20 (beBytes 32 payload.length ++ (payload ++
    List.replicate ((32 - payload.length % 32) % 32) 0))
  have h1 := @argument_append _ 1 (length_beBytes 32 0x20) payload.length (payload ++
    List.replicate ((32 - payload.length % 32) % 32) 0)
  rw [List.nil_append] at h0
  have hmod : payload.length % 2 ^ 256 = payload.length :=
    Nat.mod_eq_of_lt (h.trans (by decide))
  rw [hmod] at h1
  have hdrop : (beBytes 32 0x20 ++ (beBytes 32 payload.length ++ (payload ++
      List.replicate ((32 - payload.length % 32) % 32) 0))).drop 64 =
      payload ++ List.replicate ((32 - payload.length % 32) % 32) 0 := by
    rw [← List.append_assoc, List.drop_left' (by simp)]
  show bytesArgument _ = some payload
  simp only [bytesArgument, h0, h1, Option.bind_eq_bind, Option.bind_some]
  rw [if_pos ⟨by decide, h, by simp; omega⟩, hdrop, List.take_left' rfl]

theorem length_data_le_pack (c : Call) : c.data.length ≤ c.pack.length := by
  simp only [Call.pack, List.length_append]
  omega

theorem decodeMultiSendCall_batchOf (safe : Address) {d : Deployment} (hd : d ∈ deployments)
    (calls : List Call) (hlen : (calls.flatMap Call.pack).length < 2 ^ 64) :
    Abi.words.decodeMultiSendCall (batchOf safe d calls) =
      some (calls.map (Call.subTransaction safe d.version), d.allowsDelegateCalls) := by
  refine decodeMultiSendCall_eq_some.mpr ⟨d.version, calls.flatMap Call.pack, rfl,
    knownDeployment_of_mem hd, words_multiSendCall_encode hlen,
    decodeMultiSend_flatMap_pack safe d.version fun c hc => ?_⟩
  have hle : c.pack.length ≤ (calls.flatMap Call.pack).length :=
    (List.sublist_flatten_of_mem (List.mem_map_of_mem hc)).length_le
  have := length_data_le_pack c
  omega

end Engine

end Safenet
