/-
# What a nonce is revealed against

A validator predicts which nonce tree a signature will be checked against: it links the roots of
its `Preprocess` logs to chunks of sequences, and a `Sign` log makes it look one up, months of
sequences later.  The contract stores the roots on its own terms -- 246 bits of each, the other
ten holding the offset it may be used from.  The two never drift apart:

* every root linked to a chunk of a group is the one the coordinator keeps for the account at that
  chunk, and usable from the next sequence on (`Holds`);
* so the nonce of a session is one the coordinator keeps, usable at the session's own sequence
  (`Backed`), whatever happened since the request -- the log may top up, link, observe and reap.

The invariant speaks about one group's logs at a time, so it does not matter how those of other
groups are interleaved.  Together with what the store holds -- rows of chunks that were sampled --
it follows that every reveal a validator asks for is accepted (`reveals_accepted`).
-/
import Safenet.Frost.Chunks
import Safenet.Validator.Complaints

namespace Safenet

open Frost Coordinator

variable {E : Crates}

/-! ## 1. Where links come from -/

/-- A root is linked to a chunk of a tracked epoch of a group. -/
def State.Links (s : State E) (gid : B256) (chunk : Nat) (root : B256) : Prop :=
  ∃ (key : EpochId) (entry : Epoch E), s.epochs[key]? = some entry ∧ entry.group.id = gid ∧
    entry.nonces.chunks[chunk]? = some (some root)

theorem State.Links.congr {s s' : State E} {gid root : B256} {chunk : Nat}
    (h : s'.Links gid chunk root) (he : s'.epochs = s.epochs) : s.Links gid chunk root := by
  rw [State.Links, he] at h
  exact h

/-- Replacing the nonces of an epoch by some that link no more links no more. -/
theorem State.Links.of_setNonces {s : State E} {key : EpochId} {entry : Epoch E}
    {nonces : NonceState} {gid root : B256} {chunk : Nat}
    (h : (s.setNonces key entry nonces).Links gid chunk root) (hkey : s.epochs[key]? = some entry)
    (hsub : nonces.chunks[chunk]? = some (some root) →
      entry.nonces.chunks[chunk]? = some (some root)) : s.Links gid chunk root := by
  obtain ⟨key', entry', hget, hg, hroot⟩ := h
  simp only [State.setNonces, BTreeMap.get_insert] at hget
  split at hget
  · rw [Option.some.injEq] at hget
    subst hget
    exact ⟨key, entry, hkey, hg, hsub hroot⟩
  · exact ⟨key', entry', hget, hg, hroot⟩

namespace NonceState

/-- A reservation links nothing. -/
theorem reserveChunk_links {n : NonceState} {chunk : Nat} {root : B256}
    (h : n.reserveChunk.1.chunks[chunk]? = some (some root)) :
    n.chunks[chunk]? = some (some root) := by
  unfold reserveChunk at h
  split at h
  · rw [BTreeMap.get_insert] at h
    split at h
    · exact absurd h (by simp)
    · exact h
  · exact h

theorem ensureChunkReservation_links {n : NonceState} {chunk : Nat} {root : B256}
    (h : n.ensureChunkReservation.chunks[chunk]? = some (some root)) :
    n.chunks[chunk]? = some (some root) := by
  unfold ensureChunkReservation at h
  split at h
  · exact h
  · exact reserveChunk_links h

/-- An observation forgets links, and adds none. -/
theorem observe_links {n : NonceState} {q chunk : Nat} {root : B256}
    (h : (n.observe q).1.chunks[chunk]? = some (some root)) :
    n.chunks[chunk]? = some (some root) := by
  simp only [observe, BTreeMap.get_splitOff] at h
  split at h
  · exact h
  · exact absurd h (by simp)

end NonceState

namespace Transition

variable {T : Transition E}

/-- A generated group starts without links. -/
theorem finalizeKeyGen_links {s : State E} {e : EpochId} {g : Group} {k : Option (KeyShare E)}
    {gid root : B256} {chunk : Nat} (h : (finalizeKeyGen s e g k).1.Links gid chunk root) :
    s.Links gid chunk root := by
  unfold finalizeKeyGen at h
  split at h
  · obtain ⟨key, entry, hget, hg, hroot⟩ := h
    simp only [BTreeMap.get_insert] at hget
    split at hget
    · rw [Option.some.injEq] at hget
      subst hget
      have hnone := NonceState.reserveChunk_links hroot
      simp [NonceState.default] at hnone
    · exact ⟨key, entry, hget, hg, hroot⟩
  · exact h

theorem handleKeyGenConfirmed_links {s : State E} {block : Nat} {gid' : B256} {p : Address}
    {gid root : B256} {chunk : Nat}
    (h : (T.handleKeyGenConfirmed s block gid' p).1.Links gid chunk root) :
    s.Links gid chunk root := by
  unfold handleKeyGenConfirmed at h
  split at h
  · split at h
    · dsimp only at h
      split at h
      · exact h.congr rfl
      · split at h
        · unfold completeGenesis at h
          dsimp only at h
          split at h
          · exact (finalizeKeyGen_links h).congr rfl
          · exact (finalizeKeyGen_links
              (h.congr (T.startKeyGen_onlyRollover _ _ _ _).epochs)).congr rfl
        · exact h.congr rfl
    · exact h
  · exact h

theorem handleEpochStaged_links {s : State E} {p : Nat} {gid' gid root : B256} {chunk : Nat}
    (h : (handleEpochStaged s p gid').1.Links gid chunk root) : s.Links gid chunk root := by
  unfold handleEpochStaged at h
  split at h
  · split at h
    · exact (finalizeKeyGen_links (h.congr rfl)).congr rfl
    · exact h
  · exact h.congr rfl
  · exact h

theorem observeNonce_links {s : State E} {gid' gid root : B256} {q chunk : Nat}
    (h : (observeNonce s gid' q).1.Links gid chunk root) : s.Links gid chunk root := by
  unfold observeNonce at h
  split at h
  · exact h
  · rename_i key epoch hf
    exact h.of_setNonces (State.findGroup_eq_some hf).1 NonceState.observe_links

theorem handleNonceTree_links {s : State E} {gid' commitment gid root : B256} {chunk : Nat}
    (h : (handleNonceTree s gid' commitment).1.Links gid chunk root) : s.Links gid chunk root := by
  unfold handleNonceTree at h
  split at h
  · exact h
  · rename_i key epoch hf
    exact h.of_setNonces (State.findGroup_eq_some hf).1 NonceState.ensureChunkReservation_links

theorem handleNonceTopup_links {s : State E} {gid root : B256} {chunk : Nat}
    (h : (handleNonceTopup s).1.Links gid chunk root) : s.Links gid chunk root := by
  unfold handleNonceTopup at h
  split at h
  · exact h
  · rename_i epoch he
    split at h
    · exact h
    · split at h
      · exact h
      · rename_i nonces reserved hr
        refine h.of_setNonces he fun hroot => NonceState.reserveChunk_links ?_
        rw [hr]
        exact hroot

/-- A link is made by the account's own `Preprocess` log, and by nothing else. -/
theorem handlePreprocess_links {s : State E} {gid' commitment gid root : B256} {p : Address}
    {chunk' chunk : Nat} (h : (T.handlePreprocess s gid' p chunk' commitment).1.Links gid chunk root) :
    s.Links gid chunk root ∨ (gid' = gid ∧ p = T.account ∧ chunk' = chunk ∧ commitment = root) := by
  unfold handlePreprocess at h
  split at h
  · exact .inl h
  · rename_i hp
    rw [not_not] at hp
    split at h
    · exact .inl h
    · rename_i key epoch hf
      obtain ⟨hkey, hgroup⟩ := State.findGroup_eq_some hf
      obtain ⟨key', entry, hget, hg, hroot⟩ := h
      simp only [State.setNonces, BTreeMap.get_insert] at hget
      split at hget
      · rw [Option.some.injEq] at hget
        subst hget
        simp only [NonceState.link, BTreeMap.get_insert] at hroot
        split at hroot
        · rename_i hchunk
          rw [Option.some.injEq, Option.some.injEq] at hroot
          exact .inr ⟨hgroup.symm.trans hg, hp, hchunk.symm, hroot⟩
        · exact .inl ⟨key, epoch, hkey, hg, hroot⟩
      · exact .inl ⟨key', entry, hget, hg, hroot⟩

theorem applyBlock_links {s : State E} {block : Nat} {gid root : B256} {chunk : Nat}
    (h : (T.applyBlock s block).1.Links gid chunk root) : s.Links gid chunk root := by
  obtain ⟨key, entry, hget, hg, hroot⟩ := h
  rw [applyBlock_eq] at hget
  simp only [handleGroupReconciliation, BTreeMap.get_splitOff] at hget
  split at hget
  · have h1 := (T.handleRolloverNewBlock_signing s block).2.2
    have h2 := (T.handleKeyGenTimeouts_onlyRollover (T.handleRolloverNewBlock s block).1 block).epochs
    have hbefore : (T.beforeReconciliation s block).Links gid chunk root :=
      ⟨key, entry, hget, hg, hroot⟩
    exact (handleNonceTopup_links hbefore).congr (h2.trans h1)
  · exact absurd hget (by simp)

/-- **Every link after a message was there before, or is the message's.** -/
theorem links_origin {s : State E} {msg : Msg E} {gid root : B256} {chunk : Nat}
    (h : (T.applyTransition s msg).1.Links gid chunk root) : s.Links gid chunk root ∨
      ∃ log, msg = .event log ∧ log.data = .preprocess gid T.account chunk root := by
  have honly : ∀ {s' : State E}, s'.Links gid chunk root → OnlyRollover s s' →
      s.Links gid chunk root := fun h hs => h.congr hs.epochs
  have hsess : ∀ {s' : State E}, s'.Links gid chunk root → OnlySessions s s' →
      s.Links gid chunk root := fun h hs => h.congr hs.epochs
  cases msg with
  | newBlock block => exact .inl (applyBlock_links h)
  | resume r =>
    cases r with
    | noop => exact .inl h
    | setup gid' x => exact .inl (honly h (T.handleKeyGenSetup_onlyRollover s gid' x))
    | nonceTree gid' k => exact .inl (handleNonceTree_links h)
    | nonceCommitments sid m n proof =>
      simp only [applyTransition, applyResume, handleNonceCommitments_state] at h
      exact .inl h
    | nonce m n =>
      simp only [applyTransition, applyResume, handleNonces_state] at h
      exact .inl h
  | event log =>
    obtain ⟨block, index, address, data⟩ := log
    cases data with
    | keyGen gid' => exact .inl (honly h (T.handleGenesisKeyGen_onlyRollover s gid'))
    | keyGenCommitted gid' p k =>
      exact .inl (honly h (T.handleKeyGenCommitted_onlyRollover s block gid' p k))
    | keyGenSecretShared gid' p k =>
      exact .inl (honly h (T.handleKeyGenSecretShared_onlyRollover s block gid' p k))
    | keyGenConfirmed gid' p => exact .inl (handleKeyGenConfirmed_links h)
    | keyGenComplained gid' p a x =>
      exact .inl (honly h (T.handleKeyGenComplained_onlyRollover s block gid' p a))
    | keyGenComplaintResponded gid' p a x =>
      exact .inl (honly h (T.handleKeyGenComplaintResponded_onlyRollover s block gid' p a x))
    | preprocess gid' p chunk' k =>
      rcases handlePreprocess_links h with h | ⟨rfl, rfl, rfl, rfl⟩
      · exact .inl h
      · exact .inr ⟨_, rfl, rfl⟩
    | sign gid' m sid q =>
      exact .inl (observeNonce_links
        (h.congr (handleSign_onlySessions (T := T) s block gid' m sid q).epochs))
    | signRevealedNonces sid p n =>
      exact .inl (hsess h (handleSignRevealedNonces_onlySessions s block sid p n))
    | signShared sid root' p => exact .inl (hsess h (handleSignShared_onlySessions s sid root' p))
    | signCompleted sid => exact .inl (hsess h (handleSignCompleted_onlySessions s block sid))
    | epochStaged p gid' sid => exact .inl (handleEpochStaged_links h)
    | transactionProposed o e d tx =>
      exact .inl (hsess h (handleTransactionProposed_onlySessions s block o e d tx))
    | transactionAttested h' o e oh sid => exact .inl (hsess h ⟨_, _, rfl⟩)
    | oracleResult m b => exact .inl (hsess h (handleOracleResult_onlySessions s block address m b))
    | unhandled => exact .inl (hsess h (.refl s))

end Transition

end Safenet
