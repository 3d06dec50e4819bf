/-
# The FROST coordinator contract

`FROSTCoordinator.sol`: the key-generation calls on a group, the complaint bookkeeping between
its participants, and the calls that preprocess nonces, open a signature, reveal to it and
share in it.  The `WithCallback` variants run somebody else's code last, after their own
writes, so what they add to a run is more calls.

The contract is what PROMISES the validator its logs: an accusation is filed at most once per
plaintiff and answered at most once, and no two `Sign` logs carry the same signature id
(`sids_nodup`), because a group's sequence only grows and is written into the low bits that a
group id leaves zero.
-/
import Safenet.Validator.State
import Safenet.Lib.Run
import Safenet.Contracts.Libraries

namespace Safenet

/-! ## 1. Storage -/

/-- `GroupStatus`. -/
inductive GroupStatus where
  | uninitialized
  | committing
  | sharing
  | confirming
  | finalized
  | compromised
  deriving DecidableEq

/-- `GroupState`. -/
structure GroupState where
  status : GroupStatus
  count : Nat
  threshold : Nat
  pending : Nat
  sequence : Nat
  deriving DecidableEq

/-- `Group`. -/
structure CoordinatorGroup where
  participants : ParticipantMap
  nonces : NonceCommitmentSet
  state : GroupState
  key : Point

/-- Uninitialized storage. -/
def CoordinatorGroup.empty : CoordinatorGroup where
  participants := ⟨0, fun _ => ⟨.none, 0, 0⟩, fun _ => ⟨0, 0⟩, fun _ _ => .none⟩
  nonces := ⟨fun _ => ⟨0, fun _ => 0⟩⟩
  state := ⟨.uninitialized, 0, 0, 0, 0⟩
  key := ⟨0, 0⟩

/-- `Signature`. -/
structure SignatureState where
  message : B256
  signed : B256
  shares : SignatureShares

/-- Uninitialized storage. -/
def SignatureState.empty : SignatureState where
  message := 0
  signed := 0
  shares := ⟨fun _ => ⟨fun _ => 0, ⟨⟨0, 0⟩, 0⟩⟩⟩

/-- The coordinator's groups by group id, and its signatures by signature id. -/
structure Coordinator where
  groups : B256 → CoordinatorGroup
  signatures : B256 → SignatureState

/-! ## 2. The calls -/

namespace Coordinator

variable (L : ContractLibraries)

/-- `FROSTSignatureId.create`: the group id with `sequence + 1` in its low bits. -/
def signatureId (gid : B256) (sequence : Nat) : B256 :=
  Fin.ofNat _ (gid.val ||| (sequence + 1))

/-- `FROSTGroupId` clears the low 64 bits. -/
def IsGroupId (gid : B256) : Prop := gid.val % 2 ^ 64 = 0

/-- Store a group. -/
def put (C : Coordinator) (gid : B256) (g : CoordinatorGroup) : Coordinator :=
  { C with groups := Function.update C.groups gid g }

/-- Store a signature. -/
def putSignature (C : Coordinator) (sid : B256) (s : SignatureState) : Coordinator :=
  { C with signatures := Function.update C.signatures sid s }

@[simp] theorem put_signatures (C : Coordinator) (gid : B256) (g : CoordinatorGroup) :
    (C.put gid g).signatures = C.signatures := rfl

@[simp] theorem put_groups_self (C : Coordinator) (gid : B256) (g : CoordinatorGroup) :
    (C.put gid g).groups gid = g := Function.update_self ..

theorem put_groups_of_ne {C : Coordinator} {gid a : B256} {g : CoordinatorGroup} (h : a ≠ gid) :
    (C.put gid g).groups a = C.groups a := Function.update_of_ne h ..

@[simp] theorem putSignature_groups (C : Coordinator) (sid : B256) (s : SignatureState) :
    (C.putSignature sid s).groups = C.groups := rfl

@[simp] theorem putSignature_self (C : Coordinator) (sid : B256) (s : SignatureState) :
    (C.putSignature sid s).signatures sid = s := Function.update_self ..

theorem putSignature_of_ne {C : Coordinator} {sid a : B256} {s : SignatureState} (h : a ≠ sid) :
    (C.putSignature sid s).signatures a = C.signatures a := Function.update_of_ne h ..

/-- `keyGen`. -/
def keyGen (C : Coordinator) (participants : B256) (count threshold : Nat) (context : B256) :
    Option (Coordinator × List Event) := do
  if threshold ≤ count ∧ 1 < threshold then
    let gid := groupId L.keccak256 participants count threshold context
    let map ← (C.groups gid).participants.init participants
    let state : GroupState := ⟨.committing, count, threshold, count, 0⟩
    return (C.put gid { C.groups gid with participants := map, state }, [.keyGen gid])
  else none

/-- `keyGenCommit`. -/
def keyGenCommit (C : Coordinator) (sender : Address) (gid : B256) (poap : List B256)
    (commitment : KeyGenCommitment) : Option (Coordinator × List Event) := do
  let g := C.groups gid
  if g.state.status = .committing then
    let pending ← checkedPred g.state.pending
    let state : GroupState :=
      if pending = 0 then { g.state with status := .sharing, pending := g.state.count }
      else { g.state with pending }
    if Secp256k1.satisfiesCurveEquation commitment.q ∧ commitment.c.length = g.state.threshold ∧
        L.merkleVerify poap g.participants.root sender.intoWord then
      let participants ← g.participants.register sender
      let key ← commitment.c.head?.bind (Secp256k1.add g.key)
      return (C.put gid { g with participants, state, key },
        [.keyGenCommitted gid sender commitment])
    else none
  else none

/-- `keyGenAndCommit`. -/
def keyGenAndCommit (C : Coordinator) (sender : Address) (participants : B256)
    (count threshold : Nat) (context : B256) (poap : List B256) (commitment : KeyGenCommitment) :
    Option (Coordinator × List Event) := do
  let gid := groupId L.keccak256 participants count threshold context
  let (C, created) ←
    if (C.groups gid).participants.root = 0 then keyGen L C participants count threshold context
    else some (C, [])
  let (C, committed) ← keyGenCommit L C sender gid poap commitment
  return (C, created ++ committed)

/-- `keyGenSecretShare`. -/
def keyGenSecretShare (C : Coordinator) (sender : Address) (gid : B256)
    (share : KeyGenSecretShare) : Option (Coordinator × List Event) := do
  let g := C.groups gid
  if g.state.status = .sharing ∧ share.f.length + 1 = g.state.count ∧
      Secp256k1.satisfiesCurveEquation share.y then
    let pending ← checkedPred g.state.pending
    let state : GroupState :=
      if pending = 0 then { g.state with status := .confirming, pending := g.state.count }
      else { g.state with pending }
    let participants ← g.participants.set sender share.y
    return (C.put gid { g with participants, state }, [.keyGenSecretShared gid sender share])
  else none

/-- `keyGenConfirm`. -/
def keyGenConfirm (C : Coordinator) (sender : Address) (gid : B256) :
    Option (Coordinator × List Event) := do
  let g := C.groups gid
  if g.state.status = .confirming then
    let participants ← g.participants.confirm sender
    let pending ← checkedPred g.state.pending
    let state : GroupState :=
      if pending = 0 then { g.state with status := .finalized, pending } else { g.state with pending }
    return (C.put gid { g with participants, state }, [.keyGenConfirmed gid sender])
  else none

/-- `keyGenComplain`: a threshold of unresolved accusations compromises the group. -/
def keyGenComplain (C : Coordinator) (sender : Address) (gid : B256) (accused : Address) :
    Option (Coordinator × List Event) := do
  let g := C.groups gid
  if g.state.status = .sharing ∨ g.state.status = .confirming then
    let (participants, accusations) ← g.participants.complain sender accused
    let compromised : Bool := g.state.threshold ≤ accusations
    let state : GroupState :=
      if compromised then { g.state with status := .compromised } else g.state
    return (C.put gid { g with participants, state },
      [.keyGenComplained gid sender accused compromised])
  else none

/-- `keyGenComplaintResponse`. -/
def keyGenComplaintResponse (C : Coordinator) (sender : Address) (gid : B256)
    (plaintiff : Address) (secretShare : U256) : Option (Coordinator × List Event) := do
  let g := C.groups gid
  if g.state.status = .sharing ∨ g.state.status = .confirming then
    let participants ← g.participants.respond plaintiff sender
    return (C.put gid { g with participants },
      [.keyGenComplaintResponded gid plaintiff sender secretShare])
  else none

/-- `preprocess`. -/
def preprocess (C : Coordinator) (sender : Address) (gid commitment : B256) :
    Option (Coordinator × List Event) := do
  let g := C.groups gid
  if g.participants.verify sender then
    let (nonces, chunk) ← g.nonces.commit sender commitment g.state.sequence
    return (C.put gid { g with nonces }, [.preprocess gid sender chunk commitment])
  else none

/-- `sign`. -/
def sign (C : Coordinator) (gid message : B256) : Option (Coordinator × List Event) :=
  let g := C.groups gid
  if message ≠ 0 ∧ 0 < g.state.count ∧ g.state.status = .finalized ∧
      g.state.sequence + 1 < 2 ^ 64 then
    let sid := signatureId gid g.state.sequence
    let C := C.put gid { g with state := { g.state with sequence := g.state.sequence + 1 } }
    some (C.putSignature sid { C.signatures sid with message },
      [.sign gid message sid g.state.sequence])
  else none

/-- `signRevealNonces`. -/
def signRevealNonces (C : Coordinator) (sender : Address) (sid : B256) (nonces : SignNonces)
    (proof : List B256) : Option (Coordinator × List Event) :=
  let g := C.groups (SignatureId.group sid)
  if (C.signatures sid).message ≠ 0 ∧
      g.nonces.verify L sender nonces (SignatureId.sequence sid) proof then
    some (C, [.signRevealedNonces sid sender nonces])
  else none

/-- `signShare`: a share that brings its selection's sum to the group commitment has to complete
a valid signature, and the first to do so is recorded. -/
def signShare (C : Coordinator) (sender : Address) (sid : B256) (selection : SignSelection)
    (share : SignatureShare) (proof : List B256) : Option (Coordinator × List Event) := do
  let s := C.signatures sid
  let g := C.groups (SignatureId.group sid)
  let participantKey ← g.participants.getKey sender
  if s.message ≠ 0 ∧ L.frostVerifyShare g.key selection.r participantKey share s.message then
    let (shares, accumulator) ←
      s.shares.register L sender share selection.r selection.root proof
    let shared : Event := .signShared sid selection.root sender
    if selection.r = accumulator.r then
      if L.frostVerify g.key accumulator s.message then
        if s.signed = 0 then
          return (C.putSignature sid { s with shares, signed := selection.root },
            [shared, .signCompleted sid])
        else return (C.putSignature sid { s with shares }, [shared])
      else none
    else return (C.putSignature sid { s with shares }, [shared])
  else none

/-- `signatureValue`. -/
def signatureValue (C : Coordinator) (sid : B256) : Option FrostSignature :=
  let s := C.signatures sid
  if s.signed = 0 then none else some (s.shares.groupSignature s.signed)

/-- A call to the coordinator. -/
inductive Call where
  | keyGen (participants : B256) (count threshold : Nat) (context : B256)
  | keyGenCommit (gid : B256) (poap : List B256) (commitment : KeyGenCommitment)
  | keyGenAndCommit (participants : B256) (count threshold : Nat) (context : B256)
      (poap : List B256) (commitment : KeyGenCommitment)
  | keyGenSecretShare (gid : B256) (share : KeyGenSecretShare)
  | keyGenConfirm (gid : B256)
  | keyGenComplain (gid : B256) (accused : Address)
  | keyGenComplaintResponse (gid : B256) (plaintiff : Address) (secretShare : U256)
  | preprocess (gid commitment : B256)
  | sign (gid message : B256)
  | signRevealNonces (sid : B256) (nonces : SignNonces) (proof : List B256)
  | signShare (sid : B256) (selection : SignSelection) (share : SignatureShare)
      (proof : List B256)

/-- Execute a call. -/
def exec (C : Coordinator) (sender : Address) : Call → Option (Coordinator × List Event)
  | .keyGen participants count threshold context => keyGen L C participants count threshold context
  | .keyGenCommit gid poap commitment => keyGenCommit L C sender gid poap commitment
  | .keyGenAndCommit participants count threshold context poap commitment =>
    keyGenAndCommit L C sender participants count threshold context poap commitment
  | .keyGenSecretShare gid share => keyGenSecretShare C sender gid share
  | .keyGenConfirm gid => keyGenConfirm C sender gid
  | .keyGenComplain gid accused => keyGenComplain C sender gid accused
  | .keyGenComplaintResponse gid plaintiff secretShare =>
    keyGenComplaintResponse C sender gid plaintiff secretShare
  | .preprocess gid commitment => preprocess C sender gid commitment
  | .sign gid message => sign C gid message
  | .signRevealNonces sid nonces proof => signRevealNonces L C sender sid nonces proof
  | .signShare sid selection share proof => signShare L C sender sid selection share proof

/-- The coordinator after a list of calls, and the logs it emitted; a reverting call emits
nothing and changes nothing. -/
def execAll (C : Coordinator) : List (Address × Call) → Coordinator × List Event
  | [] => (C, [])
  | (sender, call) :: calls =>
    match exec L C sender call with
    | some (C, events) =>
      let (C, rest) := execAll C calls
      (C, events ++ rest)
    | none => execAll C calls

/-- Fresh storage. -/
def initial : Coordinator := ⟨fun _ => .empty, fun _ => .empty⟩

/-! ## 3. What a call can do -/

/-- The state once a participant acted: the last one of a phase moves the group on. -/
def advance (s : GroupState) (pending : Nat) (next : GroupStatus) : GroupState :=
  if pending = 0 then { s with status := next, pending := s.count } else { s with pending }

/-- One accepted call on a group, with the log it emits. -/
inductive GroupStep (gid : B256) (g : CoordinatorGroup) : Event → CoordinatorGroup → Prop where
  | keyGen {root context : B256} {count threshold : Nat} :
      gid = groupId L.keccak256 root count threshold context → threshold ≤ count →
      1 < threshold → root ≠ 0 → g.participants.root = 0 →
      GroupStep gid g (.keyGen gid)
        { g with participants := { g.participants with root }
                 state := ⟨.committing, count, threshold, count, 0⟩ }
  | commit {sender : Address} {commitment : KeyGenCommitment} {poap : List B256} {pending : Nat}
      {participants : ParticipantMap} {key : Point} :
      g.state.status = .committing → g.state.pending = pending + 1 →
      L.merkleVerify poap g.participants.root sender.intoWord = true →
      g.participants.register sender = some participants →
      GroupStep gid g (.keyGenCommitted gid sender commitment)
        { g with participants, state := advance g.state pending .sharing, key }
  | share {sender : Address} {share : KeyGenSecretShare} {pending : Nat}
      {participants : ParticipantMap} :
      g.state.status = .sharing → g.state.pending = pending + 1 →
      Secp256k1.satisfiesCurveEquation share.y = true →
      g.participants.set sender share.y = some participants →
      GroupStep gid g (.keyGenSecretShared gid sender share)
        { g with participants, state := advance g.state pending .confirming }
  | confirm {sender : Address} {pending : Nat} {participants : ParticipantMap} :
      g.state.status = .confirming → g.state.pending = pending + 1 →
      g.participants.confirm sender = some participants →
      GroupStep gid g (.keyGenConfirmed gid sender)
        { g with participants
                 state := if pending = 0 then { g.state with status := .finalized, pending }
                   else { g.state with pending } }
  | complain {plaintiff accused : Address} {participants : ParticipantMap} {accusations : Nat} :
      g.state.status = .sharing ∨ g.state.status = .confirming →
      g.participants.complain plaintiff accused = some (participants, accusations) →
      GroupStep gid g
        (.keyGenComplained gid plaintiff accused (decide (g.state.threshold ≤ accusations)))
        { g with participants
                 state := if g.state.threshold ≤ accusations then
                   { g.state with status := .compromised } else g.state }
  | respond {plaintiff accused : Address} {secretShare : U256} {participants : ParticipantMap} :
      g.state.status = .sharing ∨ g.state.status = .confirming →
      g.participants.respond plaintiff accused = some participants →
      GroupStep gid g (.keyGenComplaintResponded gid plaintiff accused secretShare)
        { g with participants }
  | preprocess {sender : Address} {commitment : B256} {nonces : NonceCommitmentSet} {chunk : Nat} :
      (g.participants.states sender).status = .confirmed →
      g.nonces.commit sender commitment g.state.sequence = some (nonces, chunk) →
      GroupStep gid g (.preprocess gid sender chunk commitment) { g with nonces }
  | sign {message : B256} :
      message ≠ 0 → 0 < g.state.count → g.state.status = .finalized →
      g.state.sequence + 1 < 2 ^ 64 →
      GroupStep gid g (.sign gid message (signatureId gid g.state.sequence) g.state.sequence)
        { g with state := { g.state with sequence := g.state.sequence + 1 } }

/-- A registered share, as a call on a signature sees it. -/
structure Shared (C : Coordinator) (sender : Address) (sid : B256) (selection : SignSelection)
    (share : SignatureShare) (proof : List B256) (shares : SignatureShares)
    (accumulator : FrostSignature) : Prop where
  message : (C.signatures sid).message ≠ 0
  verified : ∃ key, (C.groups (SignatureId.group sid)).participants.getKey sender = some key ∧
    L.frostVerifyShare (C.groups (SignatureId.group sid)).key selection.r key share
      (C.signatures sid).message = true
  registered : (C.signatures sid).shares.register L sender share selection.r selection.root proof =
    some (shares, accumulator)
  /-- A sum that reaches the group commitment is a valid signature. -/
  valid : selection.r = accumulator.r → L.frostVerify (C.groups (SignatureId.group sid)).key
    accumulator (C.signatures sid).message = true

/-- One accepted call, with the logs it emits. -/
inductive Step (C : Coordinator) : List Event → Coordinator → Prop where
  | group {gid : B256} {g : CoordinatorGroup} {event : Event} :
      GroupStep L gid (C.groups gid) event g → (∀ m sid q, event ≠ .sign gid m sid q) →
      Step C [event] (C.put gid g)
  | sign {gid message sid : B256} {g : CoordinatorGroup} {q : Nat} :
      GroupStep L gid (C.groups gid) (.sign gid message sid q) g →
      Step C [.sign gid message sid q]
        ((C.put gid g).putSignature sid { C.signatures sid with message })
  | reveal {sender : Address} {sid : B256} {nonces : SignNonces} {proof : List B256} :
      (C.signatures sid).message ≠ 0 →
      (C.groups (SignatureId.group sid)).nonces.verify L sender nonces
        (SignatureId.sequence sid) proof = true →
      Step C [.signRevealedNonces sid sender nonces] C
  | shared {sender : Address} {sid : B256} {selection : SignSelection} {share : SignatureShare}
      {proof : List B256} {shares : SignatureShares} {accumulator : FrostSignature} :
      Shared L C sender sid selection share proof shares accumulator →
      (selection.r = accumulator.r → (C.signatures sid).signed ≠ 0) →
      Step C [.signShared sid selection.root sender]
        (C.putSignature sid { C.signatures sid with shares })
  | completed {sender : Address} {sid : B256} {selection : SignSelection} {share : SignatureShare}
      {proof : List B256} {shares : SignatureShares} {accumulator : FrostSignature} :
      Shared L C sender sid selection share proof shares accumulator →
      selection.r = accumulator.r → (C.signatures sid).signed = 0 →
      Step C [.signShared sid selection.root sender, .signCompleted sid]
        (C.putSignature sid { C.signatures sid with shares, signed := selection.root })

variable {L}

theorem keyGen_step {C C' : Coordinator} {root context : B256} {count threshold : Nat}
    {events : List Event} (h : keyGen L C root count threshold context = some (C', events)) :
    Step L C events C' ∧ ∃ gid, events = [.keyGen gid] := by
  unfold keyGen at h
  split at h
  · rename_i hsize
    simp only [bind, Option.bind_eq_some_iff, pure, Option.some.injEq, Prod.mk.injEq] at h
    obtain ⟨map, hm, rfl, rfl⟩ := h
    unfold ParticipantMap.init at hm
    split at hm
    · rename_i hr
      rw [Option.some.injEq] at hm
      subst hm
      exact ⟨.group (.keyGen rfl hsize.1 hsize.2 hr.1 hr.2) (by simp), _, rfl⟩
    · exact absurd hm (by simp)
  · exact absurd h (by simp)

theorem keyGenCommit_step {C C' : Coordinator} {sender : Address} {gid : B256} {poap : List B256}
    {commitment : KeyGenCommitment} {events : List Event}
    (h : keyGenCommit L C sender gid poap commitment = some (C', events)) :
    Step L C events C' ∧ events = [.keyGenCommitted gid sender commitment] := by
  unfold keyGenCommit at h
  dsimp only at h
  split at h
  · rename_i hs
    simp only [bind, Option.bind_eq_some_iff] at h
    obtain ⟨pending, hp, h⟩ := h
    split at h
    · rename_i hv
      simp only [Option.bind_eq_some_iff, pure, Option.some.injEq, Prod.mk.injEq] at h
      obtain ⟨participants, hreg, key, -, rfl, rfl⟩ := h
      exact ⟨.group (.commit hs (checkedPred_eq_some hp) hv.2.2 hreg) (by simp), rfl⟩
    · exact absurd h (by simp)
  · exact absurd h (by simp)

theorem signShare_step {C C' : Coordinator} {sender : Address} {sid : B256}
    {selection : SignSelection} {share : SignatureShare} {proof : List B256} {events : List Event}
    (h : signShare L C sender sid selection share proof = some (C', events)) :
    Step L C events C' ∧ ∀ x root a, .signShared x root a ∈ events →
      x = sid ∧ root = selection.root := by
  unfold signShare at h
  simp only [bind, Option.bind_eq_some_iff] at h
  obtain ⟨key, hkey, h⟩ := h
  split at h
  · rename_i hv
    rw [Option.bind_eq_some_iff] at h
    obtain ⟨⟨shares, accumulator⟩, hreg, h⟩ := h
    dsimp only at h
    split at h
    · rename_i hr
      split at h
      · rename_i hvalid
        have hshared : Shared L C sender sid selection share proof shares accumulator :=
          ⟨hv.1, ⟨key, hkey, hv.2⟩, hreg, fun _ => hvalid⟩
        split at h
        · rename_i hz
          simp only [pure, Option.some.injEq, Prod.mk.injEq] at h
          obtain ⟨rfl, rfl⟩ := h
          exact ⟨.completed hshared hr hz, by simp +contextual⟩
        · rename_i hz
          simp only [pure, Option.some.injEq, Prod.mk.injEq] at h
          obtain ⟨rfl, rfl⟩ := h
          exact ⟨.shared hshared fun _ => hz, by simp +contextual⟩
      · exact absurd h (by simp)
    · rename_i hr
      simp only [pure, Option.some.injEq, Prod.mk.injEq] at h
      obtain ⟨rfl, rfl⟩ := h
      exact ⟨.shared ⟨hv.1, ⟨key, hkey, hv.2⟩, hreg, fun h => absurd h hr⟩ fun h => absurd h hr,
        by simp +contextual⟩
  · exact absurd h (by simp)

/-- **What one call can do.**  `keyGenAndCommit` takes up to two steps, every other call one, and
only `signShare` logs a share. -/
theorem exec_run {C C' : Coordinator} {sender : Address} {call : Call} {events : List Event}
    (h : exec L C sender call = some (C', events)) :
    ∃ ls, Run (Step L) C ls C' ∧ ls.flatten = events ∧
      ((∃ sid selection share proof, call = .signShare sid selection share proof ∧
        Step L C events C' ∧ ∀ x root a, .signShared x root a ∈ events →
          x = sid ∧ root = selection.root) ∨
      ∀ x root a, .signShared x root a ∉ events) := by
  have one : Step L C events C' → (∀ x root a, .signShared x root a ∉ events) →
      ∃ ls, Run (Step L) C ls C' ∧ ls.flatten = events ∧
      ((∃ sid selection share proof, call = .signShare sid selection share proof ∧
        Step L C events C' ∧ ∀ x root a, .signShared x root a ∈ events →
          x = sid ∧ root = selection.root) ∨
      ∀ x root a, .signShared x root a ∉ events) :=
    fun h hq => ⟨[] ++ [events], .tail .refl h, by simp, .inr hq⟩
  cases call with
  | keyGen root count threshold context =>
    obtain ⟨hst, gid, rfl⟩ := keyGen_step h
    exact one hst (by simp)
  | keyGenCommit gid poap commitment =>
    obtain ⟨hst, rfl⟩ := keyGenCommit_step h
    exact one hst (by simp)
  | keyGenAndCommit root count threshold context poap commitment =>
    simp only [exec, keyGenAndCommit, bind, pure] at h
    split at h
    · simp only [Option.bind_eq_some_iff, Option.some.injEq, Prod.mk.injEq] at h
      obtain ⟨⟨C₁, e₁⟩, h₁, ⟨C₂, e₂⟩, h₂, rfl, rfl⟩ := h
      obtain ⟨hst₁, gid, rfl⟩ := keyGen_step h₁
      obtain ⟨hst₂, rfl⟩ := keyGenCommit_step h₂
      exact ⟨_, .tail (.tail .refl hst₁) hst₂, by simp, .inr (by simp)⟩
    · simp only [Option.bind_some, Option.bind_eq_some_iff, Option.some.injEq, Prod.mk.injEq,
        List.nil_append] at h
      obtain ⟨⟨C₂, e₂⟩, h₂, rfl, rfl⟩ := h
      obtain ⟨hst, rfl⟩ := keyGenCommit_step h₂
      exact one hst (by simp)
  | keyGenSecretShare gid share =>
    simp only [exec, keyGenSecretShare] at h
    split at h
    · rename_i hs
      simp only [bind, Option.bind_eq_some_iff, pure, Option.some.injEq, Prod.mk.injEq] at h
      obtain ⟨pending, hp, participants, hset, rfl, rfl⟩ := h
      exact one (.group (.share hs.1 (checkedPred_eq_some hp) hs.2.2 hset) (by simp)) (by simp)
    · exact absurd h (by simp)
  | keyGenConfirm gid =>
    simp only [exec, keyGenConfirm] at h
    split at h
    · rename_i hs
      simp only [bind, Option.bind_eq_some_iff, pure, Option.some.injEq, Prod.mk.injEq] at h
      obtain ⟨participants, hc, pending, hp, rfl, rfl⟩ := h
      exact one (.group (.confirm hs (checkedPred_eq_some hp) hc) (by simp)) (by simp)
    · exact absurd h (by simp)
  | keyGenComplain gid accused =>
    simp only [exec, keyGenComplain] at h
    split at h
    · rename_i hs
      simp only [bind, Option.bind_eq_some_iff, pure, Option.some.injEq, Prod.mk.injEq,
        decide_eq_true_eq] at h
      obtain ⟨r, hp, rfl, rfl⟩ := h
      exact one (.group (.complain hs hp) (by simp)) (by simp)
    · exact absurd h (by simp)
  | keyGenComplaintResponse gid plaintiff secretShare =>
    simp only [exec, keyGenComplaintResponse] at h
    split at h
    · rename_i hs
      simp only [bind, Option.bind_eq_some_iff, pure, Option.some.injEq, Prod.mk.injEq] at h
      obtain ⟨participants, hp, rfl, rfl⟩ := h
      exact one (.group (.respond hs hp) (by simp)) (by simp)
    · exact absurd h (by simp)
  | preprocess gid commitment =>
    simp only [exec, preprocess] at h
    split at h
    · rename_i hs
      simp only [bind, Option.bind_eq_some_iff, pure, Option.some.injEq, Prod.mk.injEq] at h
      obtain ⟨r, hc, rfl, rfl⟩ := h
      exact one (.group (.preprocess (by simpa [ParticipantMap.verify] using hs) hc) (by simp))
        (by simp)
    · exact absurd h (by simp)
  | sign gid message =>
    simp only [exec, sign] at h
    split at h
    · rename_i hs
      simp only [Option.some.injEq, Prod.mk.injEq] at h
      obtain ⟨rfl, rfl⟩ := h
      exact one (.sign (.sign hs.1 hs.2.1 hs.2.2.1 hs.2.2.2)) (by simp)
    · exact absurd h (by simp)
  | signRevealNonces sid nonces proof =>
    simp only [exec, signRevealNonces] at h
    split at h
    · rename_i hs
      simp only [Option.some.injEq, Prod.mk.injEq] at h
      obtain ⟨rfl, rfl⟩ := h
      exact one (.reveal hs.1 hs.2) (by simp)
    · exact absurd h (by simp)
  | signShare sid selection share proof =>
    obtain ⟨hst, hroot⟩ := signShare_step h
    exact ⟨_, .tail .refl hst, by simp, .inl ⟨sid, selection, share, proof, rfl, hst, hroot⟩⟩

variable (L)

/-- **Any list of calls is a run of steps, and its logs are theirs in order.** -/
theorem execAll_run (calls : List (Address × Call)) (C : Coordinator) :
    ∃ ls, Run (Step L) C ls (execAll L C calls).1 ∧ ls.flatten = (execAll L C calls).2 := by
  induction calls generalizing C with
  | nil => exact ⟨[], .refl, rfl⟩
  | cons call calls ih =>
    obtain ⟨sender, call⟩ := call
    cases hx : exec L C sender call with
    | none =>
      simp only [execAll, hx]
      exact ih C
    | some r =>
      obtain ⟨C', events⟩ := r
      obtain ⟨ls, hrun, rfl, -⟩ := exec_run hx
      obtain ⟨ls', hrun', hls'⟩ := ih C'
      simp only [execAll, hx]
      exact ⟨ls ++ ls', hrun.trans hrun', by simp [hls']⟩

/-! ## 4. One group at a time -/

end Coordinator

/-- The group a log of a group belongs to. -/
def Event.group? : Event → Option B256
  | .keyGen gid => some gid
  | .keyGenCommitted gid .. => some gid
  | .keyGenSecretShared gid .. => some gid
  | .keyGenConfirmed gid _ => some gid
  | .keyGenComplained gid .. => some gid
  | .keyGenComplaintResponded gid .. => some gid
  | .preprocess gid .. => some gid
  | .sign gid .. => some gid
  | _ => none

namespace Coordinator

/-- The logs of a group. -/
def groupLog (gid : B256) (events : List Event) : List Event :=
  events.filter fun e => e.group? = some gid

theorem groupLog_append (gid : B256) (a b : List Event) :
    groupLog gid (a ++ b) = groupLog gid a ++ groupLog gid b := List.filter_append ..

variable {L}

theorem GroupStep.group_eq {gid : B256} {g g' : CoordinatorGroup} {e : Event}
    (h : GroupStep L gid g e g') : e.group? = some gid := by
  cases h <;> rfl

theorem groupLog_of_step {gid a : B256} {g g' : CoordinatorGroup} {e : Event}
    (h : GroupStep L gid g e g') : groupLog a [e] = if a = gid then [e] else [] := by
  simp only [groupLog, List.filter_cons, List.filter_nil, h.group_eq, Option.some.injEq,
    decide_eq_true_eq]
  by_cases ha : gid = a
  · rw [if_pos ha, if_pos ha.symm]
  · rw [if_neg ha, if_neg (Ne.symm ha)]

/-- A step of the coordinator is a step of at most one group. -/
theorem Step.group_step {C C' : Coordinator} {events : List Event} (h : Step L C events C')
    (gid : B256) :
    (groupLog gid events = [] ∧ C'.groups gid = C.groups gid) ∨
      ∃ e, groupLog gid events = [e] ∧ GroupStep L gid (C.groups gid) e (C'.groups gid) := by
  have one : ∀ {a : B256} {g : CoordinatorGroup} {e : Event} {C₁ : Coordinator},
      GroupStep L a (C.groups a) e g → C₁.groups = (C.put a g).groups →
      (groupLog gid [e] = [] ∧ C₁.groups gid = C.groups gid) ∨
        ∃ e', groupLog gid [e] = [e'] ∧ GroupStep L gid (C.groups gid) e' (C₁.groups gid) := by
    intro a g e C₁ hg hC
    rw [groupLog_of_step hg, hC]
    by_cases ha : gid = a
    · subst ha
      rw [put_groups_self, if_pos rfl]
      exact .inr ⟨e, rfl, hg⟩
    · rw [put_groups_of_ne ha, if_neg ha]
      exact .inl ⟨rfl, rfl⟩
  cases h with
  | group hg _ => exact one hg rfl
  | sign hg => exact one hg rfl
  | reveal _ _ => exact .inl ⟨rfl, rfl⟩
  | shared _ _ => exact .inl ⟨rfl, rfl⟩
  | completed _ _ _ => exact .inl ⟨rfl, rfl⟩

/-- **A run of the coordinator is a run of each of its groups.** -/
theorem groupRun_of_run {C C' : Coordinator} {ls : List (List Event)} (gid : B256)
    (h : Run (Step L) C ls C') :
    Run (GroupStep L gid) (C.groups gid) (groupLog gid ls.flatten) (C'.groups gid) := by
  induction h with
  | refl => exact .refl
  | tail _ hst ih =>
    rw [List.flatten_append, groupLog_append, List.flatten_singleton]
    rcases hst.group_step gid with ⟨hnil, hsame⟩ | ⟨e, he, hg⟩
    · rw [hnil, hsame, List.append_nil]
      exact ih
    · rw [he]
      exact ih.tail hg

variable (L)

/-- The run of a group from the deployment of the contract. -/
theorem groupRun_execAll (gid : B256) (calls : List (Address × Call)) :
    Run (GroupStep L gid) .empty (groupLog gid (execAll L initial calls).2)
      ((execAll L initial calls).1.groups gid) := by
  obtain ⟨ls, hrun, hls⟩ := execAll_run L calls initial
  rw [← hls]
  exact groupRun_of_run gid hrun

/-- What holds of every slot: before its key generation it is untouched, only a group id is ever
used, and the sequence fits its width. -/
structure SlotOk (gid : B256) (g : CoordinatorGroup) : Prop where
  unused : g.participants.root = 0 → g = .empty
  isGroupId : g.participants.root ≠ 0 → IsGroupId gid
  sequence_lt : g.state.sequence < 2 ^ 64

theorem slotOk_empty (gid : B256) : SlotOk gid .empty :=
  ⟨fun _ => rfl, fun h => absurd rfl h, by decide⟩

variable {L}

/-- Only `keyGen` acts on a slot whose root is zero, and no call moves the root elsewhere. -/
theorem GroupStep.root {gid : B256} {g g' : CoordinatorGroup} {e : Event} (hok : SlotOk gid g)
    (h : GroupStep L gid g e g') :
    g'.participants.root ≠ 0 ∧ (e = .keyGen gid ∨ g'.participants.root = g.participants.root) := by
  have used : ∀ {p : CoordinatorGroup → Prop}, p g → ¬ p .empty → g.participants.root ≠ 0 := by
    intro p hp hempty hr
    exact hempty (hok.unused hr ▸ hp)
  cases h with
  | keyGen _ _ _ hr _ => exact ⟨hr, .inl rfl⟩
  | commit hs _ _ hreg =>
    obtain ⟨-, rfl⟩ := ParticipantMap.register_eq_some hreg
    exact ⟨used (p := fun g => g.state.status = .committing) hs (by decide), .inr rfl⟩
  | share hs _ _ hset =>
    obtain ⟨-, -, rfl⟩ := ParticipantMap.set_eq_some hset
    exact ⟨used (p := fun g => g.state.status = .sharing) hs (by decide), .inr rfl⟩
  | confirm hs _ hc =>
    obtain ⟨-, -, rfl⟩ := ParticipantMap.confirm_eq_some hc
    exact ⟨used (p := fun g => g.state.status = .confirming) hs (by decide), .inr rfl⟩
  | complain hs hc =>
    obtain ⟨-, -, -, -, -, hroot, -⟩ := ParticipantMap.complain_eq_some hc
    have hne := used (p := fun g => g.state.status = .sharing ∨ g.state.status = .confirming) hs
      (by decide)
    exact ⟨by rw [hroot]; exact hne, .inr hroot⟩
  | respond hs hr =>
    obtain ⟨-, hroot, -⟩ := ParticipantMap.respond_eq_some hr
    have hne := used (p := fun g => g.state.status = .sharing ∨ g.state.status = .confirming) hs
      (by decide)
    exact ⟨by rw [hroot]; exact hne, .inr hroot⟩
  | @preprocess sender _ _ _ hs _ =>
    exact ⟨used (p := fun g => (g.participants.states sender).status = .confirmed) hs
      (by simp [CoordinatorGroup.empty]), .inr rfl⟩
  | sign _ _ hs _ =>
    exact ⟨used (p := fun g => g.state.status = .finalized) hs (by decide), .inr rfl⟩

/-- Once the key generation is open, its threshold stays. -/
theorem GroupStep.threshold {gid : B256} {g g' : CoordinatorGroup} {e : Event}
    (h : GroupStep L gid g e g') (hr : g.participants.root ≠ 0) :
    g'.state.threshold = g.state.threshold := by
  cases h with
  | keyGen _ _ _ _ hzero => exact absurd hzero hr
  | commit _ _ _ _ =>
    simp only [advance]
    split <;> rfl
  | share _ _ _ _ =>
    simp only [advance]
    split <;> rfl
  | confirm _ _ _ =>
    dsimp only
    split <;> rfl
  | complain _ _ =>
    dsimp only
    split <;> rfl
  | respond _ _ => rfl
  | preprocess _ _ => rfl
  | sign _ _ _ _ => rfl

/-- Every call but `sign` leaves the sequence of a slot alone. -/
theorem GroupStep.sequence {gid : B256} {g g' : CoordinatorGroup} {e : Event} (hok : SlotOk gid g)
    (h : GroupStep L gid g e g') :
    (g'.state.sequence = g.state.sequence ∧ ∀ m sid q, e ≠ .sign gid m sid q) ∨
      ∃ m, e = .sign gid m (signatureId gid g.state.sequence) g.state.sequence ∧
        g'.state.sequence = g.state.sequence + 1 ∧ g.state.sequence + 1 < 2 ^ 64 := by
  cases h with
  | keyGen _ _ _ _ hr =>
    refine .inl ⟨?_, by simp⟩
    rw [hok.unused hr]
    rfl
  | commit _ _ _ _ =>
    refine .inl ⟨?_, by simp⟩
    simp only [advance]
    split <;> rfl
  | share _ _ _ _ =>
    refine .inl ⟨?_, by simp⟩
    simp only [advance]
    split <;> rfl
  | confirm _ _ _ =>
    refine .inl ⟨?_, by simp⟩
    dsimp only
    split <;> rfl
  | complain _ _ =>
    refine .inl ⟨?_, by simp⟩
    dsimp only
    split <;> rfl
  | respond _ _ => exact .inl ⟨rfl, by simp⟩
  | preprocess _ _ => exact .inl ⟨rfl, by simp⟩
  | sign _ _ _ hlt => exact .inr ⟨_, rfl, rfl, hlt⟩

theorem GroupStep.slotOk {gid : B256} {g g' : CoordinatorGroup} {e : Event} (hok : SlotOk gid g)
    (h : GroupStep L gid g e g') : SlotOk gid g' := by
  obtain ⟨hne, hroot⟩ := h.root hok
  refine ⟨fun hr => absurd hr hne, fun _ => ?_, ?_⟩
  · rcases hroot with rfl | hroot
    · cases h with
      | keyGen hg _ _ _ _ => simp only [hg, groupId, IsGroupId, Nat.mul_mod_left]
    · exact hok.isGroupId (hroot ▸ hne)
  · have hlt := hok.sequence_lt
    rcases h.sequence hok with ⟨hseq, -⟩ | ⟨m, -, hseq, hmax⟩ <;> omega

theorem slotOk_run {gid : B256} {g : CoordinatorGroup} {events : List Event}
    (h : Run (GroupStep L gid) .empty events g) : SlotOk gid g :=
  h.induction (fun _ g => SlotOk gid g) (slotOk_empty gid) fun _ _ _ _ hok hst => hst.slotOk hok

theorem threshold_run {gid : B256} {g g' : CoordinatorGroup} {events : List Event}
    (h : Run (GroupStep L gid) g events g') (hok : SlotOk gid g) (hr : g.participants.root ≠ 0) :
    g'.state.threshold = g.state.threshold := by
  have hall : SlotOk gid g' ∧ g'.participants.root ≠ 0 ∧
      g'.state.threshold = g.state.threshold := by
    refine h.induction (fun _ t => SlotOk gid t ∧ t.participants.root ≠ 0 ∧
      t.state.threshold = g.state.threshold) ⟨hok, hr, rfl⟩ ?_
    intro past t u e ⟨hslot, hroot, hthr⟩ hst
    exact ⟨hst.slotOk hslot, (hst.root hslot).1, (hst.threshold hroot).trans hthr⟩
  exact hall.2.2

/-! ## 5. Signature ids are never reused -/

/-- The signature ids of the `Sign` logs, in order. -/
def sids (events : List Event) : List B256 :=
  events.filterMap fun
    | .sign _ _ sid _ => some sid
    | _ => none

theorem sids_append (a b : List Event) : sids (a ++ b) = sids a ++ sids b :=
  List.filterMap_append

/-- A signature id is the group id with the sequence above it in the low bits. -/
theorem signatureId_val {gid : B256} {n : Nat} (hg : IsGroupId gid) (hn : n + 1 < 2 ^ 64) :
    (signatureId gid n).val = gid.val + (n + 1) := by
  obtain ⟨k, hk⟩ : ∃ k, gid.val = 2 ^ 64 * k := ⟨gid.val / 2 ^ 64, by
    have := Nat.div_add_mod gid.val (2 ^ 64)
    rw [IsGroupId] at hg
    omega⟩
  have hor : gid.val ||| (n + 1) = gid.val + (n + 1) := by
    rw [hk, Nat.two_pow_add_eq_or_of_lt hn k]
  have hlt : gid.val + (n + 1) < 2 ^ 256 := by
    have hgid := gid.isLt
    rw [hk] at hgid ⊢
    have : k < 2 ^ 192 := by omega
    omega
  simp only [signatureId, Fin.val_ofNat, hor, Nat.mod_eq_of_lt hlt]

/-- A group id and a sequence below the maximum are recovered from the signature id. -/
theorem signatureId_injective {gid gid' : B256} {n n' : Nat} (hg : IsGroupId gid)
    (hg' : IsGroupId gid') (hn : n + 1 < 2 ^ 64) (hn' : n' + 1 < 2 ^ 64)
    (h : signatureId gid n = signatureId gid' n') : gid = gid' ∧ n = n' := by
  have hv := congrArg Fin.val h
  rw [signatureId_val hg hn, signatureId_val hg' hn'] at hv
  rw [IsGroupId] at hg hg'
  refine ⟨Fin.ext ?_, ?_⟩ <;> omega

/-- `FROSTSignatureId` reads back what it wrote. -/
theorem group_signatureId {gid : B256} {n : Nat} (hg : IsGroupId gid) (hn : n + 1 < 2 ^ 64) :
    SignatureId.group (signatureId gid n) = gid := by
  apply Fin.ext
  simp only [SignatureId.group, maskGroupId, signatureId_val hg hn]
  rw [IsGroupId] at hg
  omega

theorem sequence_signatureId {gid : B256} {n : Nat} (hg : IsGroupId gid) (hn : n + 1 < 2 ^ 64) :
    SignatureId.sequence (signatureId gid n) = n := by
  simp only [SignatureId.sequence, signatureId_val hg hn]
  rw [IsGroupId] at hg
  omega

/-- The ids issued so far are below their group's sequence, and no two are equal. -/
structure Issued (events : List Event) (C : Coordinator) : Prop where
  slots : ∀ gid, SlotOk gid (C.groups gid)
  issued : ∀ sid ∈ sids events, ∃ gid n, IsGroupId gid ∧ n < (C.groups gid).state.sequence ∧
    sid = signatureId gid n
  nodup : (sids events).Nodup

/-- What a step does to the sequences: nothing, except that `sign` takes the next one of one
group for its log. -/
theorem Step.sequence {C C' : Coordinator} {events : List Event}
    (hok : ∀ gid, SlotOk gid (C.groups gid)) (h : Step L C events C') :
    (∀ gid, (C.groups gid).state.sequence ≤ (C'.groups gid).state.sequence) ∧
      (sids events = [] ∨ ∃ gid, IsGroupId gid ∧ (C.groups gid).state.sequence + 1 < 2 ^ 64 ∧
        sids events = [signatureId gid (C.groups gid).state.sequence] ∧
        (C'.groups gid).state.sequence = (C.groups gid).state.sequence + 1) := by
  refine ⟨fun gid => ?_, ?_⟩
  · rcases h.group_step gid with ⟨-, hsame⟩ | ⟨e, -, hg⟩
    · rw [hsame]
    · rcases hg.sequence (hok gid) with ⟨hseq, -⟩ | ⟨m, -, hseq, -⟩ <;> omega
  · cases h with
    | group hg hne =>
      rename_i gid g e
      left
      cases hg <;> first | rfl | exact absurd rfl (hne _ _ _)
    | sign hg =>
      rename_i gid message sid g q
      right
      have hne := (hg.root (hok gid)).1
      have hslot := (hg.slotOk (hok gid)).isGroupId hne
      rcases hg.sequence (hok gid) with ⟨-, hns⟩ | ⟨m, he, hseq, hlt⟩
      · exact absurd rfl (hns _ _ _)
      · obtain ⟨-, -, rfl, rfl⟩ := Event.sign.inj he
        exact ⟨gid, hslot, hlt, rfl, by rw [putSignature_groups, put_groups_self, hseq]⟩
    | reveal _ _ => exact .inl rfl
    | shared _ _ => exact .inl rfl
    | completed _ _ _ => exact .inl rfl

theorem Step.slots {C C' : Coordinator} {events : List Event}
    (hok : ∀ gid, SlotOk gid (C.groups gid)) (h : Step L C events C') (gid : B256) :
    SlotOk gid (C'.groups gid) := by
  rcases h.group_step gid with ⟨-, hsame⟩ | ⟨e, -, hg⟩
  · rw [hsame]
    exact hok gid
  · exact hg.slotOk (hok gid)

theorem Issued.step {C C' : Coordinator} {past events : List Event} (hi : Issued past C)
    (h : Step L C events C') : Issued (past ++ events) C' := by
  obtain ⟨hmono, hsids⟩ := h.sequence hi.slots
  have hold : ∀ sid ∈ sids past, ∃ gid n, IsGroupId gid ∧ n < (C'.groups gid).state.sequence ∧
      sid = signatureId gid n := by
    intro sid hs
    obtain ⟨gid, n, hg, hn, rfl⟩ := hi.issued sid hs
    exact ⟨gid, n, hg, hn.trans_le (hmono gid), rfl⟩
  rcases hsids with hnil | ⟨gid, hg, hlt, hone, hnext⟩
  · refine ⟨h.slots hi.slots, ?_, ?_⟩
    · rw [sids_append, hnil, List.append_nil]
      exact hold
    · rw [sids_append, hnil, List.append_nil]
      exact hi.nodup
  · refine ⟨h.slots hi.slots, ?_, ?_⟩
    · rw [sids_append, hone]
      intro sid hs
      rcases List.mem_append.mp hs with hs | hs
      · exact hold sid hs
      · rw [List.mem_singleton] at hs
        exact ⟨gid, _, hg, by omega, hs⟩
    · rw [sids_append, hone, ← List.concat_eq_append, List.nodup_concat]
      refine ⟨fun hs => ?_, hi.nodup⟩
      obtain ⟨gid', n, hg', hn, he⟩ := hi.issued _ hs
      have hslot := (hi.slots gid').sequence_lt
      obtain ⟨rfl, rfl⟩ := signatureId_injective hg hg' hlt (by omega) he
      omega

theorem issued_run {C : Coordinator} {ls : List (List Event)} (h : Run (Step L) initial ls C) :
    Issued ls.flatten C := by
  refine h.induction (fun ls C => Issued ls.flatten C)
    ⟨fun gid => slotOk_empty gid, by simp [sids], by simp [sids]⟩ ?_
  intro past C C' events hi hst
  rw [List.flatten_append, List.flatten_singleton]
  exact hi.step hst

variable (L)

/-- **No two `Sign` logs of the coordinator carry the same signature id.** -/
theorem sids_nodup (calls : List (Address × Call)) :
    (sids (execAll L initial calls).2).Nodup := by
  obtain ⟨ls, hrun, hls⟩ := execAll_run L calls initial
  rw [← hls]
  exact (issued_run hrun).nodup

end Coordinator

end Safenet
