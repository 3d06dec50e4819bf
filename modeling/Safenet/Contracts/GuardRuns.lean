/-
# What the guard lets pass

In every run of the guard, a Safe transaction passes in one of three ways, each exactly when it should
(`guard_passes`): it is a call of the guard's announcement functions, or it carries the attestation of
a group that the guard trusts over this very transaction, or its Safe announced it and neither
cancelled nor used the announcement since.

The groups that the guard trusts are those a chain of rollovers leads to from the first one, each signed
by the group before it, for a later epoch (`guard_trusts`).
-/
import Safenet.Contracts.Guard
import Safenet.Lib.Run

namespace Safenet

/-! ## 1. What a call does -/

/-- Whether a log is about an announcement of a Safe. -/
def GuardLog.about (safe : Address) (hash : B256) : GuardLog → Bool
  | .transactionAnnounced safe' hash' _ _ => safe' = safe ∧ hash' = hash
  | .announcementCancelled safe' hash' => safe' = safe ∧ hash' = hash
  | .announcementConsumed safe' hash' => safe' = safe ∧ hash' = hash
  | .epochRolledOver .. => false

namespace SafenetGuard

variable {P : GuardParams} {env : GuardEnv} {s s' : SafenetGuard}

/-- A rollover that is accepted: by a group that is known, for a later epoch, with its signature. -/
structure Accepts (P : GuardParams) (s : SafenetGuard) (parentKey : Point)
    (parentEpoch proposedEpoch rolloverBlock : Nat) (newGroupKey : Point)
    (signature : FrostSignature) : Prop where
  known : s.isKnown parentKey parentEpoch = true
  advances : parentEpoch < proposedEpoch
  curve : Secp256k1.satisfiesCurveEquation newGroupKey = true
  verified : P.L.frostVerify parentKey signature (ConsensusMessages.epochRollover P.L.keccak256
    P.consensusDomainSeparator parentEpoch proposedEpoch rolloverBlock newGroupKey) = true

/-- An attestation of a transaction of the caller, with the nonce that it has counted. -/
structure Attests (P : GuardParams) (env : GuardEnv) (t : AnnouncedTransaction)
    (trailer : AttestationTrailer) : Prop where
  nonce : env.nonce.val ≠ 0
  verified : P.L.frostVerify trailer.groupKey trailer.signature (attestedMessage P trailer
    (t.withNonce env.chainId env.sender (env.nonce - 1))) = true

/-- What a call does, when it does not revert. -/
inductive Step (P : GuardParams) (env : GuardEnv) (s : SafenetGuard) : GuardCall → Outcome → Prop where
  | rolled {parentKey newGroupKey : Point} {parentEpoch proposedEpoch rolloverBlock : Fin (2 ^ 64)}
      {signature : FrostSignature} :
      Accepts P s parentKey parentEpoch.val proposedEpoch.val rolloverBlock.val newGroupKey signature →
      s.isKnown newGroupKey proposedEpoch.val = false →
      Step P env s
        (.updateEpoch parentKey parentEpoch proposedEpoch rolloverBlock newGroupKey signature)
        (s.record newGroupKey proposedEpoch.val,
          [.epochRolledOver parentEpoch.val proposedEpoch.val parentKey newGroupKey])
  | again {parentKey newGroupKey : Point} {parentEpoch proposedEpoch rolloverBlock : Fin (2 ^ 64)}
      {signature : FrostSignature} :
      Accepts P s parentKey parentEpoch.val proposedEpoch.val rolloverBlock.val newGroupKey signature →
      s.isKnown newGroupKey proposedEpoch.val = true →
      Step P env s
        (.updateEpoch parentKey parentEpoch proposedEpoch rolloverBlock newGroupKey signature) (s, [])
  | announced {t : AnnouncedTransaction} {activeFrom activeUntil : Nat} :
      activeFrom = env.timestamp + P.allowTransactionDelay.val →
      activeUntil = activeFrom + P.allowTransactionWindow.val →
      Step P env s (.announceTransaction t)
        (s.setWindow env.sender (t.hash P.L.keccak256) ⟨activeFrom, activeUntil⟩,
          [.transactionAnnounced env.sender (t.hash P.L.keccak256) activeFrom activeUntil])
  | cancelled {hash : B256} : (s.announcements env.sender hash).activeFrom ≠ 0 →
      Step P env s (.cancelAnnouncement hash)
        (s.setWindow env.sender hash ⟨0, 0⟩, [.announcementCancelled env.sender hash])
  | auto {t : AnnouncedTransaction} {signatures : Bytes} : isAutoAllowed P t = true →
      Step P env s (.checkTransaction t signatures) (s, [])
  | attested {t : AnnouncedTransaction} {front : Bytes} {trailer : AttestationTrailer} :
      isAutoAllowed P t = false →
      s.isKnown trailer.groupKey trailer.epoch.val = true →
      Attests P env t trailer →
      Step P env s (.checkTransaction t (front ++ trailer.encode P.L.keccak256)) (s, [])
  | consumed {t : AnnouncedTransaction} {signatures : Bytes} {w : AnnouncementWindow} :
      isAutoAllowed P t = false →
      AttestationTrailer.hasTrailer P.L.keccak256 signatures = false →
      s.announcements env.sender (t.hash P.L.keccak256) = w →
      w.activeFrom ≠ 0 → w.activeFrom ≤ env.timestamp → env.timestamp ≤ w.activeUntil →
      Step P env s (.checkTransaction t signatures)
        (s.setWindow env.sender (t.hash P.L.keccak256) ⟨0, 0⟩,
          [.announcementConsumed env.sender (t.hash P.L.keccak256)])

theorem rollover_step {parentKey newGroupKey : Point}
    {parentEpoch proposedEpoch rolloverBlock : Fin (2 ^ 64)} {signature : FrostSignature} {o : Outcome}
    (h : s.rollover P parentKey parentEpoch.val proposedEpoch.val rolloverBlock.val newGroupKey
      signature = .ok o) :
    Step P env s
      (.updateEpoch parentKey parentEpoch proposedEpoch rolloverBlock newGroupKey signature) o := by
  simp only [rollover, Except.bind_eq_ok, ensure_eq_ok, exists_const] at h
  obtain ⟨hknown, hadvances, hcurve, hverified, h⟩ := h
  split at h
  · rename_i hnew
    obtain rfl := Except.ok.inj h
    exact .again ⟨hknown, hadvances, hcurve, hverified⟩ hnew
  · rename_i hnew
    obtain rfl := Except.ok.inj h
    exact .rolled ⟨hknown, hadvances, hcurve, hverified⟩ (Bool.eq_false_iff.mpr hnew)

/-- A check that passes, in one of three ways. -/
theorem checkTransaction_step {t : AnnouncedTransaction} {signatures : Bytes} {o : Outcome}
    (h : s.checkTransaction P env t signatures = .ok o) :
    Step P env s (.checkTransaction t signatures) o := by
  unfold checkTransaction at h
  split at h
  · rename_i hauto
    obtain rfl := Except.ok.inj h
    exact .auto hauto
  · rename_i hauto
    have hauto := Bool.eq_false_iff.mpr hauto
    split at h
    · simp only [Except.bind_eq_ok, ensure_eq_ok, exists_const, Except.pure_eq_ok] at h
      obtain ⟨trailer, hdecode, hknown, hnonce, hverified, rfl⟩ := h
      obtain ⟨front, rfl⟩ := (AttestationTrailer.decode_eq_ok P.L.keccak256).mp hdecode
      exact .attested hauto hknown ⟨hnonce, hverified⟩
    · rename_i htrailer
      have htrailer := Bool.eq_false_iff.mpr htrailer
      dsimp only at h
      cases hconsume : s.consume env env.sender (t.hash P.L.keccak256) with
      | none =>
        rw [hconsume] at h
        exact absurd h (by simp)
      | some s' =>
        rw [hconsume] at h
        obtain rfl := Except.ok.inj h
        unfold consume at hconsume
        dsimp only at hconsume
        split at hconsume
        · rename_i hwindow
          obtain rfl := Option.some.inj hconsume
          exact .consumed hauto htrailer rfl hwindow.1 hwindow.2.1 hwindow.2.2
        · exact absurd hconsume (by simp)

/-- **What a call does.** -/
theorem exec_step {call : GuardCall} {o : Outcome} (h : s.exec P env call = .ok o) :
    Step P env s call o := by
  cases call with
  | updateEpoch parentKey parentEpoch proposedEpoch rolloverBlock newGroupKey signature =>
    exact rollover_step h
  | announceTransaction t =>
    have h : s.announceTransaction P env t = .ok o := h
    simp only [announceTransaction, announce, Except.bind_eq_ok, ensure_eq_ok, exists_const,
      Except.pure_eq_ok] at h
    obtain ⟨_, ⟨-, -, -, rfl⟩, rfl⟩ := h
    exact .announced rfl rfl
  | cancelAnnouncement hash =>
    have h : s.cancelAnnouncement env hash = .ok o := h
    simp only [cancelAnnouncement, cancel, Except.bind_eq_ok, ensure_eq_ok, exists_const,
      Except.pure_eq_ok] at h
    obtain ⟨_, ⟨hne, rfl⟩, rfl⟩ := h
    exact .cancelled hne
  | checkTransaction t signatures => exact checkTransaction_step h

/-- A check with one of the three reasons passes. -/
theorem checkTransaction_passes {t : AnnouncedTransaction} {signatures : Bytes}
    (h : isAutoAllowed P t = true ∨
      (∃ trailer front, signatures = front ++ AttestationTrailer.encode P.L.keccak256 trailer ∧
        s.isKnown trailer.groupKey trailer.epoch.val = true ∧ Attests P env t trailer) ∨
      (AttestationTrailer.hasTrailer P.L.keccak256 signatures = false ∧ ∃ w,
        s.announcements env.sender (t.hash P.L.keccak256) = w ∧ w.activeFrom ≠ 0 ∧
          w.activeFrom ≤ env.timestamp ∧ env.timestamp ≤ w.activeUntil)) :
    ∃ o, s.checkTransaction P env t signatures = .ok o := by
  unfold checkTransaction
  by_cases hauto : isAutoAllowed P t = true
  · exact ⟨_, if_pos hauto⟩
  · rw [if_neg hauto]
    rcases h with h | ⟨trailer, front, rfl, hknown, hattests⟩ | ⟨htrailer, w, rfl, hne, hfrom, huntil⟩
    · exact absurd h hauto
    · have hdecode : AttestationTrailer.decode P.L.keccak256
          (front ++ AttestationTrailer.encode P.L.keccak256 trailer) = .ok trailer :=
        (AttestationTrailer.decode_eq_ok P.L.keccak256).mpr ⟨front, rfl⟩
      rw [if_pos (AttestationTrailer.hasTrailer_append P.L.keccak256 front trailer)]
      simp only [Except.bind_eq_ok, ensure_eq_ok, exists_const, Except.pure_eq_ok]
      exact ⟨_, trailer, hdecode, hknown, hattests.nonce, hattests.verified, rfl⟩
    · rw [if_neg (Bool.eq_false_iff.mp htrailer)]
      have hconsume : s.consume env env.sender (t.hash P.L.keccak256) =
          some (s.setWindow env.sender (t.hash P.L.keccak256) ⟨0, 0⟩) := if_pos ⟨hne, hfrom, huntil⟩
      dsimp only
      rw [hconsume]
      exact ⟨_, rfl⟩

end SafenetGuard

/-! ## 2. Receipts -/

/-- A call, in its block. -/
structure GuardTx where
  env : GuardEnv
  call : GuardCall

/-- A call that did not revert, and what it logged. -/
structure GuardReceipt where
  tx : GuardTx
  logs : List GuardLog

/-- The guard, as a machine of calls: one that reverts leaves it as it is. -/
def SafenetGuard.execTx (P : GuardParams) (s : SafenetGuard) (tx : GuardTx) :
    SafenetGuard × List GuardReceipt :=
  match s.exec P tx.env tx.call with
  | .ok (s', logs) => (s', [⟨tx, logs⟩])
  | .error _ => (s, [])

namespace SafenetGuard

variable {P : GuardParams} {env : GuardEnv} {s s' : SafenetGuard} {receipts : List GuardReceipt}
  {r : GuardReceipt} {safe : Address} {hash : B256}

/-- A chain of rollovers from the first group, each signed by the group before it. -/
inductive Trusted (P : GuardParams) : List GuardReceipt → Point → Nat → Prop where
  | genesis (receipts : List GuardReceipt) : Trusted P receipts P.initialGroupKey P.initialEpoch.val
  | rolled {past rest : List GuardReceipt} {r : GuardReceipt} {parentKey newGroupKey : Point}
      {parentEpoch proposedEpoch rolloverBlock : Fin (2 ^ 64)} {signature : FrostSignature} :
      Trusted P past parentKey parentEpoch.val →
      r.tx.call = .updateEpoch parentKey parentEpoch proposedEpoch rolloverBlock newGroupKey signature →
      parentEpoch < proposedEpoch →
      P.L.frostVerify parentKey signature (ConsensusMessages.epochRollover P.L.keccak256
        P.consensusDomainSeparator parentEpoch.val proposedEpoch.val rolloverBlock.val
        newGroupKey) = true →
      Trusted P (past ++ r :: rest) newGroupKey proposedEpoch.val

/-- A Safe announced something, and neither cancelled nor used it, nor announced it again. -/
def Announced (P : GuardParams) (receipts : List GuardReceipt) (safe : Address) (hash : B256)
    (w : AnnouncementWindow) : Prop :=
  ∃ past r rest t, receipts = past ++ r :: rest ∧ r.tx.env.sender = safe ∧
    r.tx.call = .announceTransaction t ∧ t.hash P.L.keccak256 = hash ∧
    w.activeFrom = r.tx.env.timestamp + P.allowTransactionDelay.val ∧
    w.activeUntil = w.activeFrom + P.allowTransactionWindow.val ∧
    ∀ r' ∈ rest, ∀ log ∈ r'.logs, log.about safe hash = false

/-- The storage is what the receipts say. -/
structure Recorded (P : GuardParams) (s : SafenetGuard) (receipts : List GuardReceipt) : Prop where
  epochs : ∀ key epoch, s.isKnown key epoch = true ↔ Trusted P receipts key epoch
  window : ∀ safe hash w, w.activeFrom ≠ 0 →
    (s.announcements safe hash = w ↔ Announced P receipts safe hash w)

theorem Trusted.concat {key : Point} {epoch : Nat} (h : Trusted P receipts key epoch) :
    Trusted P (receipts ++ [r]) key epoch := by
  cases h with
  | genesis => exact .genesis _
  | @rolled past rest r' _ _ _ _ _ _ hparent hcall hlt hverified =>
    have happend : past ++ r' :: rest ++ [r] = past ++ r' :: (rest ++ [r]) := by simp
    rw [happend]
    exact .rolled hparent hcall hlt hverified

/-- A receipt is the last one, or an earlier one. -/
theorem concat_split {α : Type} {l past rest : List α} {x y : α} (h : l ++ [x] = past ++ y :: rest) :
    (rest = [] ∧ past = l ∧ y = x) ∨ ∃ rest', rest = rest' ++ [x] ∧ l = past ++ y :: rest' := by
  rcases List.eq_nil_or_concat rest with rfl | ⟨rest', z, rfl⟩
  · obtain ⟨rfl, hx⟩ := List.append_inj' h rfl
    exact .inl ⟨rfl, rfl, (List.singleton_inj.mp hx).symm⟩
  · rw [List.concat_eq_append] at *
    have happend : past ++ y :: (rest' ++ [z]) = (past ++ y :: rest') ++ [z] := by simp
    obtain ⟨rfl, hx⟩ := List.append_inj' (h.trans happend) rfl
    exact .inr ⟨rest', by rw [List.singleton_inj.mp hx], rfl⟩

theorem Announced.concat {w : AnnouncementWindow} (h : Announced P receipts safe hash w)
    (hr : ∀ log ∈ r.logs, log.about safe hash = false) :
    Announced P (receipts ++ [r]) safe hash w := by
  obtain ⟨past, r', rest, t, rfl, hsender, hcall, hhash, hfrom, huntil, hrest⟩ := h
  refine ⟨past, r', rest ++ [r], t, by simp, hsender, hcall, hhash, hfrom, huntil, ?_⟩
  intro r'' hr''
  rcases List.mem_append.mp hr'' with hr'' | hr''
  · exact hrest r'' hr''
  · rwa [List.mem_singleton.mp hr'']

/-- An announcement is the last call, or stands since. -/
theorem Announced.of_concat {w : AnnouncementWindow} (h : Announced P (receipts ++ [r]) safe hash w) :
    (Announced P receipts safe hash w ∧ ∀ log ∈ r.logs, log.about safe hash = false) ∨
      ∃ t, r.tx.env.sender = safe ∧ r.tx.call = .announceTransaction t ∧
        t.hash P.L.keccak256 = hash ∧
        w.activeFrom = r.tx.env.timestamp + P.allowTransactionDelay.val ∧
        w.activeUntil = w.activeFrom + P.allowTransactionWindow.val := by
  obtain ⟨past, r', rest, t, hsplit, hsender, hcall, hhash, hfrom, huntil, hrest⟩ := h
  rcases concat_split hsplit with ⟨-, -, rfl⟩ | ⟨rest', rfl, rfl⟩
  · exact .inr ⟨t, hsender, hcall, hhash, hfrom, huntil⟩
  · refine .inl ⟨⟨past, r', rest', t, rfl, hsender, hcall, hhash, hfrom, huntil, ?_⟩, ?_⟩
    · exact fun r'' hr'' => hrest r'' (List.mem_append_left _ hr'')
    · exact hrest r (List.mem_append_right _ List.mem_cons_self)

theorem trusted_iff {key : Point} {epoch : Nat} : Trusted P receipts key epoch ↔
    (key = P.initialGroupKey ∧ epoch = P.initialEpoch.val) ∨
      ∃ past r rest parentKey parentEpoch proposedEpoch rolloverBlock signature,
        receipts = past ++ r :: rest ∧ epoch = proposedEpoch.val ∧
        Trusted P past parentKey parentEpoch.val ∧
        r.tx.call =
          .updateEpoch parentKey parentEpoch proposedEpoch rolloverBlock key signature ∧
        parentEpoch < proposedEpoch ∧
        P.L.frostVerify parentKey signature (ConsensusMessages.epochRollover P.L.keccak256
          P.consensusDomainSeparator parentEpoch.val proposedEpoch.val rolloverBlock.val key) = true := by
  constructor
  · intro h
    cases h with
    | genesis => exact .inl ⟨rfl, rfl⟩
    | rolled hparent hcall hlt hverified =>
      exact .inr ⟨_, _, _, _, _, _, _, _, rfl, rfl, hparent, hcall, hlt, hverified⟩
  · rintro (⟨rfl, rfl⟩ | ⟨past, r, rest, parentKey, parentEpoch, proposedEpoch, rolloverBlock,
      signature, rfl, rfl, hparent, hcall, hlt, hverified⟩)
    · exact .genesis _
    · exact .rolled hparent hcall hlt hverified

/-! ## 3. A step keeps the record -/

@[simp] theorem isKnown_record {key key' : Point} {epoch epoch' : Nat} :
    (s.record key epoch).isKnown key' epoch' = true ↔
      (key' = key ∧ epoch' = epoch) ∨ s.isKnown key' epoch' = true := by
  unfold isKnown record
  dsimp only
  by_cases hkey : key' = key
  · subst hkey
    by_cases hepoch : epoch' = epoch
    · simp [hepoch]
    · simp [hepoch]
  · simp [hkey]

theorem announcements_setWindow {safe' : Address} {hash' : B256} {w : AnnouncementWindow} :
    (s.setWindow safe hash w).announcements safe' hash' =
      if safe = safe' ∧ hash = hash' then w else s.announcements safe' hash' := by
  unfold setWindow
  dsimp only
  by_cases hsafe : safe = safe'
  · subst hsafe
    by_cases hhash : hash = hash'
    · simp [hhash]
    · simp [hhash, Ne.symm hhash]
  · simp [hsafe, Ne.symm hsafe]

/-- What is known stays known. -/
theorem Step.known {call : GuardCall} {o : Outcome} (hs : Step P env s call o) {key : Point}
    {epoch : Nat} (h : s.isKnown key epoch = true) : o.1.isKnown key epoch = true := by
  cases hs with
  | rolled _ _ => exact isKnown_record.mpr (.inr h)
  | _ => exact h

/-- What gets known is what a rollover says, and an accepted rollover gets known. -/
theorem Step.knows {call : GuardCall} {o : Outcome} (hs : Step P env s call o) {key : Point}
    {epoch : Nat} (h : o.1.isKnown key epoch = true) : s.isKnown key epoch = true ∨
      ∃ parentKey parentEpoch proposedEpoch rolloverBlock signature,
        call = .updateEpoch parentKey parentEpoch proposedEpoch rolloverBlock key signature ∧
        epoch = proposedEpoch.val ∧
        Accepts P s parentKey parentEpoch.val proposedEpoch.val rolloverBlock.val key signature := by
  cases hs with
  | rolled haccepts _ =>
    rcases isKnown_record.mp h with ⟨rfl, rfl⟩ | h
    · exact .inr ⟨_, _, _, _, _, rfl, rfl, haccepts⟩
    · exact .inl h
  | _ => exact .inl h

theorem Step.updated {parentKey newGroupKey : Point}
    {parentEpoch proposedEpoch rolloverBlock : Fin (2 ^ 64)} {signature : FrostSignature} {o : Outcome}
    (hs : Step P env s
      (.updateEpoch parentKey parentEpoch proposedEpoch rolloverBlock newGroupKey signature) o) :
    o.1.isKnown newGroupKey proposedEpoch.val = true := by
  cases hs with
  | rolled _ _ => exact isKnown_record.mpr (.inl ⟨rfl, rfl⟩)
  | again _ hknown => exact hknown

/-- What a step does to the window of an announcement: nothing, or it opens, or it closes. -/
theorem Step.window {call : GuardCall} {o : Outcome} (hs : Step P env s call o) (safe : Address)
    (hash : B256) :
    (o.1.announcements safe hash = s.announcements safe hash ∧
        (∀ log ∈ o.2, log.about safe hash = false) ∧
        ∀ t, call = .announceTransaction t → env.sender = safe → t.hash P.L.keccak256 ≠ hash) ∨
      ((∃ log ∈ o.2, log.about safe hash = true) ∧
        ((∃ t, call = .announceTransaction t ∧ env.sender = safe ∧ t.hash P.L.keccak256 = hash ∧
            o.1.announcements safe hash = ⟨env.timestamp + P.allowTransactionDelay.val,
              env.timestamp + P.allowTransactionDelay.val + P.allowTransactionWindow.val⟩) ∨
          (o.1.announcements safe hash = ⟨0, 0⟩ ∧ ∀ t, call ≠ .announceTransaction t))) := by
  cases hs with
  | rolled _ _ => exact .inl ⟨rfl, by simp [GuardLog.about], by simp⟩
  | again _ _ => exact .inl ⟨rfl, by simp, by simp⟩
  | auto _ => exact .inl ⟨rfl, by simp, by simp⟩
  | attested _ _ _ => exact .inl ⟨rfl, by simp, by simp⟩
  | @announced t activeFrom activeUntil hfrom huntil =>
    subst hfrom huntil
    rw [announcements_setWindow]
    by_cases h : env.sender = safe ∧ t.hash P.L.keccak256 = hash
    · rw [if_pos h]
      exact .inr ⟨by simp [GuardLog.about, h], .inl ⟨t, rfl, h.1, h.2, rfl⟩⟩
    · rw [if_neg h]
      refine .inl ⟨rfl, by simp [GuardLog.about]; tauto, ?_⟩
      intro t' ht' hsender hhash
      obtain rfl := GuardCall.announceTransaction.inj ht'
      exact h ⟨hsender, hhash⟩
  | @cancelled hash' _ =>
    rw [announcements_setWindow]
    by_cases h : env.sender = safe ∧ hash' = hash
    · rw [if_pos h]
      exact .inr ⟨by simp [GuardLog.about, h], .inr ⟨rfl, by simp⟩⟩
    · rw [if_neg h]
      exact .inl ⟨rfl, by simp [GuardLog.about]; tauto, by simp⟩
  | @consumed t signatures w _ _ _ _ _ _ =>
    rw [announcements_setWindow]
    by_cases h : env.sender = safe ∧ t.hash P.L.keccak256 = hash
    · rw [if_pos h]
      exact .inr ⟨by simp [GuardLog.about, h], .inr ⟨rfl, by simp⟩⟩
    · rw [if_neg h]
      exact .inl ⟨rfl, by simp [GuardLog.about]; tauto, by simp⟩

/-- **A step keeps the record.** -/
theorem Recorded.step (h : Recorded P s receipts) {call : GuardCall} {o : Outcome}
    (hs : Step P env s call o) : Recorded P o.1 (receipts ++ [⟨⟨env, call⟩, o.2⟩]) := by
  constructor
  · intro key epoch
    constructor
    · intro hknown
      rcases hs.knows hknown with hknown | ⟨parentKey, parentEpoch, proposedEpoch, rolloverBlock,
        signature, rfl, rfl, haccepts⟩
      · exact ((h.epochs key epoch).mp hknown).concat
      · exact .rolled ((h.epochs _ _).mp haccepts.known) rfl haccepts.advances haccepts.verified
    · intro htrusted
      rcases trusted_iff.mp htrusted with ⟨rfl, rfl⟩ | ⟨past, r, rest, parentKey, parentEpoch,
        proposedEpoch, rolloverBlock, signature, hsplit, rfl, hparent, hcall, hlt, hverified⟩
      · exact hs.known ((h.epochs _ _).mpr (.genesis receipts))
      · rcases concat_split hsplit with ⟨-, -, rfl⟩ | ⟨rest', -, rfl⟩
        · obtain rfl : call = _ := hcall
          exact hs.updated
        · exact hs.known ((h.epochs _ _).mpr (.rolled hparent hcall hlt hverified))
  · intro safe hash w hne
    rcases hs.window safe hash with ⟨hsame, hlogs, hcall⟩ | ⟨⟨log, hlog, habout⟩, hopen | hclose⟩
    · rw [hsame, h.window safe hash w hne]
      constructor
      · exact fun hannounced => hannounced.concat hlogs
      · intro hannounced
        rcases hannounced.of_concat with ⟨hannounced, -⟩ | ⟨t, hsender, ht, hhash, -⟩
        · exact hannounced
        · exact absurd hhash (hcall t ht hsender)
    · obtain ⟨t, rfl, hsender, hhash, hwindow⟩ := hopen
      rw [hwindow]
      constructor
      · rintro rfl
        exact ⟨receipts, _, [], t, rfl, hsender, rfl, hhash, rfl, rfl, by simp⟩
      · intro hannounced
        rcases hannounced.of_concat with ⟨-, hnone⟩ | ⟨_, -, -, -, hfrom, huntil⟩
        · exact absurd (hnone log hlog) (by simp [habout])
        · obtain ⟨activeFrom, activeUntil⟩ := w
          dsimp only at hfrom huntil
          rw [huntil, hfrom]
    · obtain ⟨hzero, hcall⟩ := hclose
      rw [hzero]
      constructor
      · rintro rfl
        exact absurd rfl hne
      · intro hannounced
        rcases hannounced.of_concat with ⟨-, hnone⟩ | ⟨t, -, ht, -⟩
        · exact absurd (hnone log hlog) (by simp [habout])
        · exact absurd ht (hcall t)

theorem construct_delay (h : construct P = .ok s) : P.allowTransactionDelay.val ≠ 0 := by
  simp only [construct, Except.bind_eq_ok, ensure_eq_ok, exists_const, Except.pure_eq_ok] at h
  exact h.2.1.1

theorem construct_recorded (h : construct P = .ok s) : Recorded P s [] := by
  simp only [construct, Except.bind_eq_ok, ensure_eq_ok, exists_const, Except.pure_eq_ok] at h
  obtain ⟨-, -, -, rfl⟩ := h
  constructor
  · intro key epoch
    rw [isKnown_record, trusted_iff]
    constructor
    · rintro (hgenesis | hfalse)
      · exact .inl hgenesis
      · exact absurd hfalse (by simp [isKnown])
    · rintro (hgenesis | ⟨past, r, rest, _, _, _, _, _, hnil, -⟩)
      · exact .inl hgenesis
      · exact absurd hnil (by simp)
  · intro safe hash w hne
    constructor
    · rintro rfl
      exact absurd rfl hne
    · rintro ⟨past, r, rest, _, hnil, -⟩
      exact absurd hnil (by simp)

/-- A call reverts, or takes a step. -/
theorem execTx_cases (P : GuardParams) (s : SafenetGuard) (tx : GuardTx) :
    execTx P s tx = (s, []) ∨ ∃ o, s.exec P tx.env tx.call = .ok o ∧
      execTx P s tx = (o.1, [⟨tx, o.2⟩]) := by
  cases hexec : s.exec P tx.env tx.call with
  | error e => exact .inl (by simp [execTx, hexec])
  | ok o => exact .inr ⟨o, rfl, by simp [execTx, hexec]⟩

/-- **Every run** keeps the record. -/
theorem run_recorded (h : construct P = .ok s) (txs : List GuardTx) :
    Recorded P (Reactive.runState (execTx P) s txs) (Reactive.runOutputs (execTx P) s txs) := by
  induction txs using List.reverseRecOn with
  | nil => exact construct_recorded h
  | append_singleton txs tx ih =>
    rw [Reactive.runState_append, Reactive.runOutputs_append]
    simp only [Reactive.runState_cons, Reactive.runState_nil, Reactive.runOutputs, List.append_nil]
    rcases execTx_cases P (Reactive.runState (execTx P) s txs) tx with hrun | ⟨o, hexec, hrun⟩
    · rw [hrun, List.append_nil]
      exact ih
    · rw [hrun]
      exact ih.step (exec_step hexec)

/-! ## 4. What passes -/

/-- What an announcement's hash is made of. -/
def Preimage (P : GuardParams) (t : AnnouncedTransaction) : Set Bytes :=
  {t.data, t.encode P.L.keccak256}

/-- Everything hashed for the announcements of a run, and for one transaction more. -/
def Hashed (P : GuardParams) (txs : List GuardTx) (t : AnnouncedTransaction) : Set Bytes :=
  {b | b ∈ Preimage P t ∨ ∃ tx ∈ txs, ∃ t', tx.call = .announceTransaction t' ∧ b ∈ Preimage P t'}

/-- A Safe announced a transaction, in a window that is open, and no log says otherwise since. -/
def AnnouncedFor (P : GuardParams) (receipts : List GuardReceipt) (env : GuardEnv)
    (t : AnnouncedTransaction) : Prop :=
  ∃ past r rest, receipts = past ++ r :: rest ∧ r.tx.env.sender = env.sender ∧
    r.tx.call = .announceTransaction t ∧
    r.tx.env.timestamp + P.allowTransactionDelay.val ≤ env.timestamp ∧
    env.timestamp ≤
      r.tx.env.timestamp + P.allowTransactionDelay.val + P.allowTransactionWindow.val ∧
    ∀ r' ∈ rest, ∀ log ∈ r'.logs, log.about env.sender (t.hash P.L.keccak256) = false

/-- The words of an announcement, with the hash of its data, determine it. -/
theorem hash_injective {t t' : AnnouncedTransaction}
    (hinj : (Preimage P t ∪ Preimage P t').InjOn P.L.keccak256)
    (h : t.hash P.L.keccak256 = t'.hash P.L.keccak256) : t = t' := by
  have hencode : t.encode P.L.keccak256 = t'.encode P.L.keccak256 :=
    hinj (.inl (.inr rfl)) (.inr (.inr rfl)) h
  have hbound : ∀ x : AnnouncedTransaction, ∀ v ∈ [x.to.val, x.value.val,
      (P.L.keccak256 x.data).val, x.operation.toNat, x.safeTxGas.val, x.baseGas.val,
      x.gasPrice.val, x.gasToken.val, x.refundReceiver.val], v < 2 ^ 256 := by
    intro x v hv
    have hoperation : x.operation.toNat < 2 ^ 256 := by cases x.operation <;> decide
    simp only [List.mem_cons, List.not_mem_nil, or_false] at hv
    rcases hv with rfl | rfl | rfl | rfl | rfl | rfl | rfl | rfl | rfl <;> omega
  have hwords := words_injective (hbound t) (hbound t') hencode
  simp only [List.cons.injEq, Fin.val_inj, and_true] at hwords
  obtain ⟨hto, hvalue, hdata, hoperation, hsafeTxGas, hbaseGas, hgasPrice, hgasToken, hrefund⟩ := hwords
  have hdata : t.data = t'.data := hinj (.inl (.inl rfl)) (.inr (.inl rfl)) hdata
  have hoperation : t.operation = t'.operation := by
    cases ht : t.operation <;> cases ht' : t'.operation <;> simp_all [Operation.toNat]
  cases t
  cases t'
  simp_all

/-- A receipt is one of the calls. -/
theorem receipt_call {txs : List GuardTx} (h : r ∈ Reactive.runOutputs (execTx P) s txs) :
    r.tx ∈ txs := by
  obtain ⟨past, tx, rest, hsplit, hr⟩ := Reactive.mem_runOutputs _ h
  rcases execTx_cases P (Reactive.runState (execTx P) s past) tx with hrun | ⟨o, -, hrun⟩
  · rw [hrun] at hr
    exact absurd hr List.not_mem_nil
  · rw [hrun, List.mem_singleton] at hr
    rw [hr, hsplit]
    exact List.mem_append_right _ List.mem_cons_self

/-- The window of an announcement is open for the one transaction that hashes to it. -/
theorem announcedFor_iff {txs : List GuardTx} {t : AnnouncedTransaction}
    (hinj : (Hashed P txs t).InjOn P.L.keccak256) :
    AnnouncedFor P (Reactive.runOutputs (execTx P) s txs) env t ↔
      ∃ w, Announced P (Reactive.runOutputs (execTx P) s txs) env.sender (t.hash P.L.keccak256) w ∧
        w.activeFrom ≤ env.timestamp ∧ env.timestamp ≤ w.activeUntil := by
  constructor
  · rintro ⟨past, r, rest, hsplit, hsender, hcall, hfrom, huntil, hrest⟩
    exact ⟨⟨_, _⟩, ⟨past, r, rest, t, hsplit, hsender, hcall, rfl, rfl, rfl, hrest⟩, hfrom, huntil⟩
  · rintro ⟨w, ⟨past, r, rest, t', hsplit, hsender, hcall, hhash, hwfrom, hwuntil, hrest⟩, hfrom,
      huntil⟩
    have hmem : r.tx ∈ txs := by
      apply receipt_call
      rw [hsplit]
      exact List.mem_append_right _ List.mem_cons_self
    have hsub : Preimage P t' ∪ Preimage P t ⊆ Hashed P txs t := by
      rintro b (hb | hb)
      · exact .inr ⟨r.tx, hmem, t', hcall, hb⟩
      · exact .inl hb
    obtain rfl := hash_injective (hinj.mono hsub) hhash
    rw [hwfrom] at hfrom hwuntil
    rw [hwuntil] at huntil
    exact ⟨past, r, rest, hsplit, hsender, hcall, hfrom, huntil, hrest⟩

/-- A guard that trusts one group, accepts every signature, and has a delay of ten seconds. -/
def toyGuard : GuardParams where
  L :=
    { keccak256 := fun b => Fin.ofNat _ (b.foldl (fun n x => n * 257 + x.toNat + 1) 0)
      processProof := fun _ leaf => leaf
      merkleVerify := fun _ _ _ => false
      frostVerify := fun _ _ _ => true
      frostVerifyShare := fun _ _ _ _ _ => false }
  address := 90
  consensusChainId := 100
  consensusAddress := 91
  initialEpoch := 0
  initialGroupKey := Secp256k1.generator
  allowTransactionDelay := 10
  allowTransactionWindow := 20

/-- A transfer of a Safe. -/
def toyTransfer : AnnouncedTransaction := ⟨5, 1, [], .call, 0, 0, 0, 0, 0⟩

/-- The Safe announces the transfer; a rollover follows. -/
def toyGuardTxs : List GuardTx :=
  [⟨⟨100, 1, 7, 0⟩, .announceTransaction toyTransfer⟩,
    ⟨⟨105, 1, 8, 0⟩, .updateEpoch Secp256k1.generator 0 3 50 Secp256k1.generator ⟨Secp256k1.generator, 1⟩⟩]

/-- **The groups a guard knows** are those that a chain of signed rollovers leads to. -/
theorem guard_trusts (P : GuardParams) (s : SafenetGuard) (h : construct P = .ok s)
    (txs : List GuardTx) (key : Point) (epoch : Nat) :
    (Reactive.runState (execTx P) s txs).isKnown key epoch = true ↔
      Trusted P (Reactive.runOutputs (execTx P) s txs) key epoch :=
  (run_recorded h txs).epochs key epoch

theorem guard_trusts_toy : ∃ s, construct toyGuard = .ok s ∧
    Trusted toyGuard (Reactive.runOutputs (execTx toyGuard) s toyGuardTxs) Secp256k1.generator 3 :=
  ⟨_, rfl, (guard_trusts toyGuard _ rfl toyGuardTxs _ _).mp (by decide +kernel)⟩

/-- **What the guard lets pass**: its own announcement functions; what a group that it trusts attests,
for the very transaction and nonce; and, without an attestation, the very transaction that its Safe
announced, in its window, and neither used nor cancelled since. -/
theorem guard_passes (P : GuardParams) (s : SafenetGuard) (h : construct P = .ok s)
    (txs : List GuardTx) (env : GuardEnv) (t : AnnouncedTransaction) (signatures : Bytes)
    (hinj : (Hashed P txs t).InjOn P.L.keccak256) :
    (∃ o, (Reactive.runState (execTx P) s txs).checkTransaction P env t signatures = .ok o) ↔
      isAutoAllowed P t = true ∨
      (∃ trailer front, signatures = front ++ AttestationTrailer.encode P.L.keccak256 trailer ∧
        Trusted P (Reactive.runOutputs (execTx P) s txs) trailer.groupKey trailer.epoch.val ∧
        Attests P env t trailer) ∨
      (AttestationTrailer.hasTrailer P.L.keccak256 signatures = false ∧
        AnnouncedFor P (Reactive.runOutputs (execTx P) s txs) env t) := by
  have hrecorded := run_recorded h txs
  rw [announcedFor_iff hinj]
  constructor
  · rintro ⟨o, hok⟩
    cases checkTransaction_step hok with
    | auto hauto => exact .inl hauto
    | @attested _ front trailer _ hknown hattests =>
      exact .inr (.inl ⟨trailer, front, rfl, (hrecorded.epochs _ _).mp hknown, hattests⟩)
    | consumed _ htrailer hwindow hne hfrom huntil =>
      exact .inr (.inr ⟨htrailer, _, (hrecorded.window _ _ _ hne).mp hwindow, hfrom, huntil⟩)
  · rintro (hauto | ⟨trailer, front, hsignatures, htrusted, hattests⟩ |
      ⟨htrailer, w, hannounced, hfrom, huntil⟩)
    · exact checkTransaction_passes (.inl hauto)
    · exact checkTransaction_passes
        (.inr (.inl ⟨trailer, front, hsignatures, (hrecorded.epochs _ _).mpr htrusted, hattests⟩))
    · have hne : w.activeFrom ≠ 0 := by
        have hdelay := construct_delay h
        obtain ⟨_, _, _, _, _, _, _, _, hwfrom, -⟩ := hannounced
        omega
      exact checkTransaction_passes
        (.inr (.inr ⟨htrailer, w, (hrecorded.window _ _ _ hne).mpr hannounced, hne, hfrom, huntil⟩))

theorem guard_passes_toy : ∃ s, construct toyGuard = .ok s ∧
    AnnouncedFor toyGuard (Reactive.runOutputs (execTx toyGuard) s toyGuardTxs) ⟨115, 1, 7, 1⟩
      toyTransfer := by
  have hinj : (Hashed toyGuard toyGuardTxs toyTransfer).InjOn toyGuard.L.keccak256 := by
    have hsub : Hashed toyGuard toyGuardTxs toyTransfer ⊆ Preimage toyGuard toyTransfer := by
      rintro b (hb | ⟨tx, htx, t, hcall, hb⟩)
      · exact hb
      · simp only [toyGuardTxs, List.mem_cons, List.not_mem_nil, or_false] at htx
        rcases htx with rfl | rfl
        · obtain rfl := GuardCall.announceTransaction.inj hcall
          exact hb
        · cases hcall
    have hne : toyGuard.L.keccak256 toyTransfer.data ≠
        toyGuard.L.keccak256 (toyTransfer.encode toyGuard.L.keccak256) := by decide +kernel
    intro a ha b hb h
    rcases hsub ha with rfl | rfl <;> rcases hsub hb with rfl | rfl
    · rfl
    · exact absurd h hne
    · exact absurd h.symm hne
    · rfl
  refine ⟨_, rfl, ?_⟩
  have hchecked := guard_passes toyGuard _ rfl toyGuardTxs ⟨115, 1, 7, 1⟩ toyTransfer [] hinj
  rcases hchecked.mp (checkTransaction_passes (.inr (.inr ⟨by decide, ⟨110, 130⟩, by decide +kernel,
      by decide, by decide, by decide⟩))) with hauto | ⟨trailer, front, hnil, -⟩ | ⟨-, hannounced⟩
  · exact absurd hauto (by decide)
  · exact absurd (AttestationTrailer.hasTrailer_append toyGuard.L.keccak256 front trailer)
      (by rw [← hnil]; decide)
  · exact hannounced

end SafenetGuard

end Safenet
