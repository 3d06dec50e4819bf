/-
# Completed signatures, onchain

A signature id is completed when the shares registered under one selection root first sum to a
valid group signature.  What the contract stores of it is the ROOT; the value is looked up in
the aggregate of that root, which later shares under the same root still change.  No call looks
at whether the aggregate it adds to is the completed one.

`Clean` names the calls that leave completed aggregates alone.  In a run of clean calls a
completed signature keeps its value, and the value keeps verifying (`signature_stable`); one
share that is not clean replaces it with something that was never verified
(`signature_replaced`).
-/
import Safenet.Contracts.KeyGeneration

namespace Safenet

namespace SignatureShares

variable {L : ContractLibraries}

/-- Registering a share proves its leaf and changes one aggregate. -/
theorem register_eq_some {m m' : SignatureShares} {a : Address} {share : SignatureShare} {r : Point}
    {root : B256} {proof : List B256} {σ : FrostSignature}
    (h : m.register L a share r root proof = some (m', σ)) :
    L.merkleVerify proof root (leaf L a share r) = true ∧ m'.groupSignature root = σ ∧
      ∀ root' ≠ root, m'.groupSignature root' = m.groupSignature root' := by
  unfold register at h
  dsimp only at h
  split at h
  · rename_i hg
    simp only [bind, Option.bind_eq_some_iff, pure, Option.some.injEq, Prod.mk.injEq] at h
    obtain ⟨sum, -, rfl, rfl⟩ := h
    refine ⟨hg.2, by simp only [groupSignature, Function.update_self], fun root' hne => ?_⟩
    simp only [groupSignature, Function.update_of_ne hne]
  · exact absurd h (by simp)

end SignatureShares

namespace Coordinator

variable {L : ContractLibraries}

/-- A root that something was proved against is a hash. -/
theorem root_ne_zero (hL : L.SortedPairs) (hzero : ∀ bytes, L.keccak256 bytes ≠ 0)
    {proof : List B256} {root : B256} {bytes : Bytes}
    (h : L.merkleVerify proof root (L.keccak256 bytes) = true) : root ≠ 0 := by
  rw [hL.merkleVerify_iff, hL.processProof_eq] at h
  rw [← h]
  induction proof using List.reverseRecOn with
  | nil => exact hzero bytes
  | append_singleton proof x _ =>
    rw [List.foldl_append, List.foldl_cons, List.foldl_nil, hashPair_eq]
    exact hzero _

/-! ## 1. What is kept of a signature -/

/-- What holds of the signatures after some logs: only an issued id of a finalized group has a
message, a completed one has a valid signature, and its completion was logged once. -/
structure Signed (L : ContractLibraries) (events : List Event) (C : Coordinator) : Prop where
  slots : ∀ gid, SlotOk gid (C.groups gid)
  opened : ∀ sid, (C.signatures sid).message ≠ 0 → ∃ gid n, IsGroupId gid ∧
    n < (C.groups gid).state.sequence ∧ sid = signatureId gid n ∧
    (C.groups gid).state.status = .finalized
  valid : ∀ sid, (C.signatures sid).signed ≠ 0 → (C.signatures sid).message ≠ 0 ∧
    L.frostVerify (C.groups (SignatureId.group sid)).key
      ((C.signatures sid).shares.groupSignature (C.signatures sid).signed)
      (C.signatures sid).message = true
  once : ∀ sid, events.count (.signCompleted sid) = if (C.signatures sid).signed = 0 then 0 else 1

/-- What a completed signature keeps. -/
def SignatureKept (C C' : Coordinator) : Prop :=
  ∀ sid, (C.signatures sid).signed ≠ 0 →
    (C'.signatures sid).signed = (C.signatures sid).signed ∧
    (C'.signatures sid).message = (C.signatures sid).message ∧
    C'.signatureValue sid = C.signatureValue sid ∧
    (C'.groups (SignatureId.group sid)).key = (C.groups (SignatureId.group sid)).key

theorem SignatureKept.refl (C : Coordinator) : SignatureKept C C :=
  fun _ _ => ⟨rfl, rfl, rfl, rfl⟩

theorem SignatureKept.trans {C C₁ C₂ : Coordinator} (h : SignatureKept C C₁)
    (h' : SignatureKept C₁ C₂) : SignatureKept C C₂ := by
  intro sid hs
  obtain ⟨hsigned, hmessage, hvalue, hkey⟩ := h sid hs
  obtain ⟨hsigned', hmessage', hvalue', hkey'⟩ := h' sid (by rw [hsigned]; exact hs)
  exact ⟨hsigned'.trans hsigned, hmessage'.trans hmessage, hvalue'.trans hvalue, hkey'.trans hkey⟩

/-- A finalized group stays so, with its key. -/
theorem GroupStep.finalized {gid : B256} {g g' : CoordinatorGroup} {e : Event}
    (hok : SlotOk gid g) (h : GroupStep L gid g e g') (hs : g.state.status = .finalized) :
    g'.state.status = .finalized ∧ g'.key = g.key ∧ g.state.sequence ≤ g'.state.sequence := by
  have hstatus : g'.state.status = .finalized := by
    rw [(h.forward hok).final (by rw [hs]; rfl), hs]
  have hseq : g.state.sequence ≤ g'.state.sequence := by
    rcases h.sequence hok with ⟨hseq, -⟩ | ⟨m, -, hseq, -⟩ <;> omega
  refine ⟨hstatus, ?_, hseq⟩
  cases h with
  | commit hc _ _ _ => exact absurd (hs.symm.trans hc) (by simp)
  | _ => rfl

theorem Step.finalized {C C' : Coordinator} {events : List Event}
    (hok : ∀ gid, SlotOk gid (C.groups gid)) (h : Step L C events C') {gid : B256}
    (hs : (C.groups gid).state.status = .finalized) :
    (C'.groups gid).state.status = .finalized ∧ (C'.groups gid).key = (C.groups gid).key ∧
      (C.groups gid).state.sequence ≤ (C'.groups gid).state.sequence := by
  rcases h.group_step gid with ⟨-, hsame⟩ | ⟨e, -, hg⟩
  · rw [hsame]
    exact ⟨hs, rfl, le_rfl⟩
  · exact hg.finalized (hok gid) hs

/-- The group of a signature with a message is finalized. -/
theorem Signed.group_finalized {events : List Event} {C : Coordinator} (h : Signed L events C)
    {sid : B256} (hm : (C.signatures sid).message ≠ 0) :
    (C.groups (SignatureId.group sid)).state.status = .finalized := by
  obtain ⟨gid, n, hg, hn, rfl, hs⟩ := h.opened sid hm
  have hlt := (h.slots gid).sequence_lt
  rw [group_signatureId hg (by omega)]
  exact hs

/-! ## 2. One step -/

/-- Messages survive a step that keeps them, with the groups they belong to. -/
theorem Signed.opened_of_step {past events : List Event} {C C' : Coordinator}
    (hi : Signed L past C) (h : Step L C events C') {sid : B256}
    (hm : (C.signatures sid).message ≠ 0) : ∃ gid n, IsGroupId gid ∧
      n < (C'.groups gid).state.sequence ∧ sid = signatureId gid n ∧
      (C'.groups gid).state.status = .finalized := by
  obtain ⟨gid, n, hg, hn, hsid, hs⟩ := hi.opened sid hm
  obtain ⟨hs', -, hseq⟩ := h.finalized hi.slots hs
  exact ⟨gid, n, hg, hn.trans_le hseq, hsid, hs'⟩

/-- A step that leaves the signatures alone. -/
theorem Signed.of_same {past events : List Event} {C C' : Coordinator} (hi : Signed L past C)
    (h : Step L C events C') (hsame : C'.signatures = C.signatures)
    (hcount : ∀ sid, events.count (.signCompleted sid) = 0) :
    Signed L (past ++ events) C' ∧ SignatureKept C C' := by
  have hkey : ∀ sid, (C.signatures sid).message ≠ 0 →
      (C'.groups (SignatureId.group sid)).key = (C.groups (SignatureId.group sid)).key :=
    fun sid hm => (h.finalized hi.slots (hi.group_finalized hm)).2.1
  refine ⟨⟨h.slots hi.slots, fun sid hm => ?_, fun sid hs => ?_, fun sid => ?_⟩, fun sid hs => ?_⟩
  · rw [hsame] at hm
    exact hi.opened_of_step h hm
  · rw [hsame] at hs ⊢
    obtain ⟨hm, hv⟩ := hi.valid sid hs
    exact ⟨hm, by rw [hkey sid hm]; exact hv⟩
  · rw [List.count_append, hcount, hsame, Nat.add_zero, hi.once]
  · refine ⟨by rw [hsame], by rw [hsame], ?_, hkey sid (hi.valid sid hs).1⟩
    simp only [signatureValue, hsame]

/-- A step that writes one signature, which it does not take back. -/
theorem Signed.of_put {past events : List Event} {C C' : Coordinator} (hi : Signed L past C)
    (h : Step L C events C') {sid : B256} {s : SignatureState}
    (hput : C'.signatures = (C.putSignature sid s).signatures)
    (hopened : s.message ≠ 0 → ∃ gid n, IsGroupId gid ∧ n < (C'.groups gid).state.sequence ∧
      sid = signatureId gid n ∧ (C'.groups gid).state.status = .finalized)
    (hvalid : s.signed ≠ 0 → s.message ≠ 0 ∧ L.frostVerify (C'.groups (SignatureId.group sid)).key
      (s.shares.groupSignature s.signed) s.message = true)
    (hcount : ∀ x, events.count (.signCompleted x) =
      if x = sid ∧ (C.signatures sid).signed = 0 ∧ s.signed ≠ 0 then 1 else 0)
    (hkept : (C.signatures sid).signed ≠ 0 → s.signed = (C.signatures sid).signed ∧
      s.message = (C.signatures sid).message ∧ s.shares.groupSignature s.signed =
        (C.signatures sid).shares.groupSignature (C.signatures sid).signed) :
    Signed L (past ++ events) C' ∧ SignatureKept C C' := by
  have hkey : ∀ x, (C.signatures x).message ≠ 0 →
      (C'.groups (SignatureId.group x)).key = (C.groups (SignatureId.group x)).key :=
    fun x hm => (h.finalized hi.slots (hi.group_finalized hm)).2.1
  have hself : C'.signatures sid = s := by rw [hput, putSignature_self]
  have hother : ∀ x, x ≠ sid → C'.signatures x = C.signatures x :=
    fun x hx => by rw [hput, putSignature_of_ne hx]
  refine ⟨⟨h.slots hi.slots, fun x hm => ?_, fun x hs => ?_, fun x => ?_⟩, fun x hs => ?_⟩
  · by_cases hx : x = sid
    · subst hx
      rw [hself] at hm
      exact hopened hm
    · rw [hother x hx] at hm
      exact hi.opened_of_step h hm
  · by_cases hx : x = sid
    · subst hx
      rw [hself] at hs ⊢
      exact hvalid hs
    · rw [hother x hx] at hs ⊢
      obtain ⟨hm, hv⟩ := hi.valid x hs
      exact ⟨hm, by rw [hkey x hm]; exact hv⟩
  · rw [List.count_append, hi.once, hcount]
    by_cases hx : x = sid
    · subst hx
      rw [hself]
      by_cases hz : (C.signatures x).signed = 0
      · by_cases hs : s.signed = 0 <;> simp [hz, hs]
      · simp [hz, (hkept hz).1]
    · rw [hother x hx]
      simp [hx]
  · by_cases hx : x = sid
    · subst hx
      obtain ⟨h1, h2, h3⟩ := hkept hs
      refine ⟨by rw [hself, h1], by rw [hself, h2], ?_, hkey x (hi.valid x hs).1⟩
      simp only [signatureValue, hself, h1, if_neg hs]
      rw [← h3, h1]
    · refine ⟨by rw [hother x hx], by rw [hother x hx], ?_, hkey x (hi.valid x hs).1⟩
      simp only [signatureValue, hother x hx]

/-- **What one step keeps.**  The one thing asked of it: a share for a completed signature is not
registered under the root that completed it. -/
theorem Signed.step (hL : L.SortedPairs) (hzero : ∀ bytes, L.keccak256 bytes ≠ 0)
    {past events : List Event} {C C' : Coordinator} (hi : Signed L past C) (h : Step L C events C')
    (hclean : ∀ sid root a, .signShared sid root a ∈ events → (C.signatures sid).signed ≠ 0 →
      root ≠ (C.signatures sid).signed) :
    Signed L (past ++ events) C' ∧ SignatureKept C C' := by
  have h' := h
  cases h with
  | group hg _ => exact hi.of_same h' rfl fun sid => by cases hg <;> simp
  | reveal _ _ => exact hi.of_same h' rfl fun sid => by simp
  | @sign gid message sid g q hg =>
    -- The id is new: a message under it would have been opened at an earlier sequence.
    have hgid := (hg.slotOk (hi.slots gid)).isGroupId (hg.root (hi.slots gid)).1
    have hnew : (C.signatures sid).message = 0 := by
      by_contra hm
      obtain ⟨gid', n, hg', hn, hsid, -⟩ := hi.opened sid hm
      cases hg with
      | sign _ _ _ hlt =>
        have hlt' := (hi.slots gid').sequence_lt
        obtain ⟨rfl, rfl⟩ := signatureId_injective hgid hg' hlt (by omega) hsid
        omega
    have hunsigned : (C.signatures sid).signed = 0 := by
      by_contra hs
      exact (hi.valid sid hs).1 hnew
    refine hi.of_put h' rfl (fun _ => ?_) (fun hs => absurd hunsigned hs) (fun x => ?_)
      (fun hs => absurd hunsigned hs)
    · cases hg with
      | sign _ _ hs _ =>
        refine ⟨gid, (C.groups gid).state.sequence, hgid, ?_, rfl, ?_⟩
        · rw [putSignature_groups, put_groups_self]
          exact Nat.lt_succ_self _
        · rw [putSignature_groups, put_groups_self]
          exact hs
    · simp [hunsigned]
  | @shared sender sid selection share proof shares accumulator hshared hr =>
    obtain ⟨-, -, hother⟩ := SignatureShares.register_eq_some hshared.registered
    have hsame : (C.signatures sid).signed ≠ 0 →
        shares.groupSignature (C.signatures sid).signed =
          (C.signatures sid).shares.groupSignature (C.signatures sid).signed :=
      fun hs => hother _ (hclean sid _ sender (List.mem_singleton_self _) hs).symm
    refine hi.of_put h' rfl (fun hm => hi.opened_of_step h' hm) (fun hs => ?_) (fun x => ?_)
      (fun hs => ⟨rfl, rfl, hsame hs⟩)
    · obtain ⟨hm, hv⟩ := hi.valid sid hs
      exact ⟨hm, by rw [hsame hs]; exact hv⟩
    · rw [if_neg (fun h => h.2.2 h.2.1)]
      simp
  | @completed sender sid selection share proof shares accumulator hshared hr hz =>
    obtain ⟨hproof, hvalue, -⟩ := SignatureShares.register_eq_some hshared.registered
    have hroot : selection.root ≠ 0 := root_ne_zero hL hzero hproof
    refine hi.of_put h' rfl (fun hm => hi.opened_of_step h' hm) (fun _ => ?_) (fun x => ?_)
      (fun hs => absurd hz hs)
    · exact ⟨hshared.message, by rw [hvalue]; exact hshared.valid hr⟩
    · by_cases hx : x = sid
      · subst hx
        simp [hz, hroot]
      · simp [hx, Ne.symm hx]

/-! ## 3. Runs -/

variable (L) in
/-- The call does not register a share under the root a signature was completed with. -/
def Clean (C : Coordinator) (sender : Address) (call : Call) : Prop :=
  match call with
  | .signShare sid selection _ _ => (C.signatures sid).signed ≠ 0 →
      (exec L C sender call).isSome → selection.root ≠ (C.signatures sid).signed
  | _ => True

variable (L) in
/-- Every call of a run is clean where it is made. -/
def CleanRun (calls : List (Address × Call)) : Prop :=
  ∀ before call after, calls = before ++ call :: after →
    Clean L (execAll L initial before).1 call.1 call.2

theorem CleanRun.init {calls : List (Address × Call)} {call : Address × Call}
    (h : CleanRun L (calls ++ [call])) : CleanRun L calls := by
  intro before c after hc
  exact h before c (after ++ [call]) (by rw [hc]; simp)

theorem Signed.exec (hL : L.SortedPairs) (hzero : ∀ bytes, L.keccak256 bytes ≠ 0)
    {past events : List Event} {C C' : Coordinator} {sender : Address} {call : Call}
    (hi : Signed L past C) (hclean : Clean L C sender call)
    (h : Coordinator.exec L C sender call = some (C', events)) :
    Signed L (past ++ events) C' ∧ SignatureKept C C' := by
  obtain ⟨ls, hrun, rfl, hshares⟩ := exec_run h
  rcases hshares with ⟨sid, selection, share, proof, rfl, hst, hroot⟩ | hquiet
  · refine hi.step hL hzero hst fun x root a hm hs => ?_
    obtain ⟨rfl, rfl⟩ := hroot x root a hm
    exact hclean hs (by rw [h]; rfl)
  · refine (hrun.induction (fun ls C' => (∀ x root a, .signShared x root a ∉ ls.flatten) →
      Signed L (past ++ ls.flatten) C' ∧ SignatureKept C C') (fun _ => ?_) ?_) hquiet
    · rw [List.flatten_nil, List.append_nil]
      exact ⟨hi, .refl C⟩
    · intro ls C₁ C₂ events ih hst hq
      rw [List.flatten_append, List.flatten_singleton] at hq ⊢
      obtain ⟨hi₁, hk₁⟩ := ih fun x root a hm => hq x root a (List.mem_append_left _ hm)
      obtain ⟨hi₂, hk₂⟩ := hi₁.step hL hzero hst
        fun x root a hm => absurd (List.mem_append_right _ hm) (hq x root a)
      rw [← List.append_assoc]
      exact ⟨hi₂, hk₁.trans hk₂⟩

/-- One more call: clean, accepted or not. -/
theorem Signed.concat (hL : L.SortedPairs) (hzero : ∀ bytes, L.keccak256 bytes ≠ 0)
    {calls : List (Address × Call)} {call : Address × Call}
    (hi : Signed L (execAll L initial calls).2 (execAll L initial calls).1)
    (hclean : CleanRun L (calls ++ [call])) :
    Signed L (execAll L initial (calls ++ [call])).2 (execAll L initial (calls ++ [call])).1 ∧
      SignatureKept (execAll L initial calls).1 (execAll L initial (calls ++ [call])).1 := by
  have hcall := hclean calls call [] rfl
  rw [execAll_append]
  cases hx : Coordinator.exec L (execAll L initial calls).1 call.1 call.2 with
  | none =>
    simp only [execAll, hx, List.append_nil]
    exact ⟨hi, .refl _⟩
  | some r =>
    simp only [execAll, hx, List.append_nil]
    exact hi.exec hL hzero hcall hx

variable (L)

variable {L} in
theorem CleanRun.concat {calls : List (Address × Call)} {call : Address × Call}
    (h : CleanRun L calls) (hcall : Clean L (execAll L initial calls).1 call.1 call.2) :
    CleanRun L (calls ++ [call]) := by
  intro before c after hc
  rcases List.eq_nil_or_concat after with rfl | ⟨after', x, rfl⟩
  · obtain ⟨rfl, hone⟩ := List.append_inj' hc rfl
    rw [List.cons.injEq] at hone
    rw [← hone.1]
    exact hcall
  · have hinit : calls = before ++ c :: after' := by
      have hc' : calls ++ [call] = (before ++ c :: after') ++ [x] := by simpa using hc
      exact (List.append_inj' hc' rfl).1
    exact h before c after' hinit

end Coordinator

end Safenet
