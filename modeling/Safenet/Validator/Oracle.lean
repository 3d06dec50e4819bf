/-
# The oracle gate

A transaction is only signed once its oracle approved it.  The session of a proposed transaction
waits for the request, then for the oracle, and only an approving result lets it reveal nonces
and sign; this module follows a session through that gate.

Section 1 is what one message can do at the gate: the only way INTO the oracle's waiting room is
a `Sign` log (`waitingForOracle_origin`), the only way OUT towards a signature is an approving
result of the packet's own oracle (`revealing_origin`), and the share round opens together with
the `useNonce` effect that burns the nonce (`shares_origin`).

* `gated_emitted` -- nothing the machine emits passes the gate unapproved, on the canonical
  history, through every rollback, restart and resume;
* `approval_survives` -- an approved session does not wait for its oracle again, UNLESS a later
  `Sign` log over it is accepted: the approval is not carried through a restart, which sends the
  session back to the request and from there to the oracle (`approval_lost`).
-/
import Safenet.Validator.Commands
import Safenet.Validator.Requests
import Safenet.Validator.SignatureIndex

namespace Safenet

open Frost

variable {E : Crates}

/-! ## 1. The gate, one message at a time -/

/-- A session that waits for its oracle. -/
def SigningState.awaitsOracle : SigningState E → Bool
  | .waitingForOracle _ => true
  | _ => false

/-- A session whose nonces are being revealed or used. -/
def SigningState.revealing : SigningState E → Bool
  | .collectNonceCommitments _ => true
  | .collectSigningShares _ => true
  | _ => false

namespace Transition

variable {T : Transition E}

/-- A session waits for its oracle as before, or since the request that just arrived. -/
theorem waitingForOracle_origin {s : State E} {msg : Msg E} {m : B256} {w' : WaitingForOracle E}
    (h : (T.applyTransition s msg).1.signing[m]? = some (.waitingForOracle w')) :
    s.signing[m]? = some (.waitingForOracle w') ∨
      ∃ log gid sid q w n, msg = .event log ∧ log.data = .sign gid m sid q ∧
        s.signing[m]? = some (.waitingForRequest w) ∧ w.groupId = gid ∧
        (observeNonce s gid q).2 = some n ∧ w'.packet.oracle? = some w'.oracle := by
  generalize hx : SigningState.waitingForOracle w' = x' at h
  cases T.session_step h with
  | same hs => exact .inl (hx ▸ hs)
  | opened ho => cases ho <;> exact absurd hx (by simp)
  | request hd hs hg hn =>
    refine .inr ⟨_, _, _, _, _, _, rfl, hd, hs, hg, hn, ?_⟩
    unfold openRequest at hx
    split at hx
    · rename_i hp
      simp only [SigningState.waitingForOracle.injEq] at hx
      rw [hx]
      simp only [hp, Packet.oracle?]
    · exact absurd hx (by simp)
  | approval => exact absurd hx (by simp)
  | reveal => exact absurd hx (by simp)
  | allRevealed => exact absurd hx (by simp)
  | share => exact absurd hx (by simp)
  | completed => exact absurd hx (by simp)
  | retry => exact absurd hx (by simp)

/-- A session reveals as before, or since its oracle just approved it; a rollover needs none. -/
theorem revealing_origin {s : State E} {msg : Msg E} {m : B256} {x' : SigningState E}
    (h : (T.applyTransition s msg).1.signing[m]? = some x') (hr : x'.revealing = true) :
    (∃ x, s.signing[m]? = some x ∧ x.revealing = true ∧ x'.packet = x.packet) ∨
      (∃ log w, msg = .event log ∧ log.data = .oracleResult m true ∧ log.address = w.oracle ∧
        s.signing[m]? = some (.waitingForOracle w) ∧ x'.packet = w.packet) ∨
      x'.packet.oracle? = none := by
  cases T.session_step h with
  | same hs => exact .inl ⟨_, hs, hr, rfl⟩
  | opened ho => cases ho <;> exact absurd hr (by simp [SigningState.revealing])
  | request hd hs hg hn =>
    unfold openRequest at hr ⊢
    split at hr
    · exact absurd hr (by simp [SigningState.revealing])
    · rename_i hp
      refine .inr (.inr ?_)
      simp only [SigningState.packet, hp, Packet.oracle?]
  | approval hd hs ho => exact .inr (.inl ⟨_, _, rfl, hd, ho.symm, hs, rfl⟩)
  | reveal _ _ hs _ => exact .inl ⟨_, hs, rfl, (registerReveal_frame _ _ _).1⟩
  | allRevealed _ _ hs _ => exact .inl ⟨_, hs, rfl, (registerReveal_frame _ _ _).1⟩
  | share _ _ hs => exact .inl ⟨_, hs, rfl, rfl⟩
  | completed => exact absurd hr (by simp [SigningState.revealing])
  | retry => exact absurd hr (by simp [SigningState.revealing])

/-- A share round goes on under its signature id, or opens together with the effect that burns
the nonce. -/
theorem shares_origin {s : State E} {msg : Msg E} {m : B256} {c' : CollectSigningShares E}
    (h : (T.applyTransition s msg).1.signing[m]? = some (.collectSigningShares c')) :
    (∃ c, s.signing[m]? = some (.collectSigningShares c) ∧ c'.signatureId = c.signatureId) ∨
      ∃ root offset, .effect (.useNonce m root offset) ∈ (T.applyTransition s msg).2 := by
  generalize hx : SigningState.collectSigningShares c' = x' at h
  cases T.session_step h with
  | same hs => exact .inl ⟨c', hx ▸ hs, rfl⟩
  | opened ho => cases ho <;> exact absurd hx (by simp)
  | request hd hs hg hn =>
    unfold openRequest at hx
    split at hx <;> exact absurd hx (by simp)
  | approval => exact absurd hx (by simp)
  | reveal => exact absurd hx (by simp)
  | @allRevealed log sid p n c hd hi hs hlt =>
    refine .inr ⟨(registerReveal c p n).nonce.root, (registerReveal c p n).nonce.offset, ?_⟩
    simp only [applyTransition, applyEvent, hd, handleSignRevealedNonces, hi, hs, hlt, if_false,
      List.mem_singleton]
  | share _ _ hs =>
    simp only [SigningState.collectSigningShares.injEq] at hx
    exact .inl ⟨_, hs, by rw [hx]; rfl⟩
  | completed => exact absurd hx (by simp)
  | retry => exact absurd hx (by simp)

/-! ## 2. The gate on the canonical history -/

variable (T)

/-- The oracle's approval of `m` was processed while its session waited for it, and the session
has been there ever since. -/
def ApprovedSince (m : B256) (oracle : Address) : List (Msg E) → Prop :=
  Since
    (fun past msg => (∃ w, (T.stateAfter past).signing[m]? = some (.waitingForOracle w)) ∧
      ∃ log, msg = .event log ∧ log.address = oracle ∧ log.data = .oracleResult m true)
    (fun history => ((T.stateAfter history).signing[m]?).isSome)

/-- A `useNonce` effect for `m` was emitted, and its session has had the signature id `sid` ever
since. -/
def UsedSince (m sid : B256) : List (Msg E) → Prop :=
  Since
    (fun past msg => ∃ root offset,
      .effect (.useNonce m root offset) ∈ (T.applyTransition (T.stateAfter past) msg).2)
    (fun history => (T.stateAfter history).sessionId m = some sid)

/-- What the gate keeps along a history. -/
structure Gate (history : List (Msg E)) (s : State E) : Prop where
  /-- A session waits for its own packet's oracle. -/
  oracle : ∀ (m : B256) (w : WaitingForOracle E), s.signing[m]? = some (.waitingForOracle w) →
    w.packet.oracle? = some w.oracle
  /-- A session that reveals was approved. -/
  approved : ∀ (m : B256) (x : SigningState E) (o : Address), s.signing[m]? = some x →
    x.revealing = true → x.packet.oracle? = some o → T.ApprovedSince m o history
  /-- A share round burned its nonce. -/
  used : ∀ (m : B256) (c : CollectSigningShares E), s.signing[m]? = some (.collectSigningShares c) →
    T.UsedSince m c.signatureId history

/-- One message keeps the gate. -/
theorem gate_step (history : List (Msg E)) (msg : Msg E) (h : T.Gate history (T.stateAfter history)) :
    T.Gate (history ++ [msg]) (T.stateAfter (history ++ [msg])) where
  oracle := by
    intro m w hw
    rw [stateAfter_concat] at hw
    rcases waitingForOracle_origin hw with hw | ⟨_, _, _, _, _, _, -, -, -, -, -, ho⟩
    · exact h.oracle m w hw
    · exact ho
  approved := by
    intro m x' o hx' hr ho
    have hheld : ((T.stateAfter (history ++ [msg])).signing[m]?).isSome := by
      rw [hx']
      rfl
    rw [stateAfter_concat] at hx'
    rcases revealing_origin hx' hr with ⟨x, hx, hxr, hp⟩ | ⟨log, w, rfl, hd, ha, hw, hp⟩ | hnone
    · exact (h.approved m x o hx hxr (hp ▸ ho)).later hheld
    · refine Since.now ⟨⟨w, hw⟩, log, rfl, ?_, hd⟩ hheld
      have := h.oracle m w hw
      rw [← hp, ho, Option.some.injEq] at this
      rw [ha, this]
    · rw [hnone] at ho
      exact absurd ho (by simp)
  used := by
    intro m c' hc'
    have hid : (T.stateAfter (history ++ [msg])).sessionId m = some c'.signatureId :=
      sessionId_eq_some.mpr ⟨_, hc', rfl⟩
    rw [stateAfter_concat] at hc'
    rcases shares_origin hc' with ⟨c, hc, hsid⟩ | hemit
    · rw [hsid] at hid ⊢
      exact (h.used m c hc).later hid
    · exact Since.now hemit hid

theorem gate_stateAfter (history : List (Msg E)) : T.Gate history (T.stateAfter history) := by
  induction history using List.reverseRecOn with
  | nil =>
    exact ⟨fun m w h => absurd h (by simp [stateAfter, State.default]),
      fun m x o h => absurd h (by simp [stateAfter, State.default]),
      fun m c h => absurd h (by simp [stateAfter, State.default])⟩
  | append_singleton history msg ih => exact T.gate_step history msg ih

/-- What a command that uses a nonce needs, when the message `msg` makes the validator emit it
after `history`: its session's packet, if a transaction, was approved by its own oracle since
the session was created; and a share is sent for a session that collects shares, whose current
round burned its nonce. -/
def Gated (history : List (Msg E)) (msg : Msg E) : Command Action (Effect E) → Prop
  | .action (.revealNonceCommitments sid n proof _) =>
    ∃ m x, msg = .resume (.nonceCommitments sid m n proof) ∧
      (T.stateAfter history).signing[m]? = some x ∧ x.signatureId = some sid ∧
      ∀ o, x.packet.oracle? = some o → T.ApprovedSince m o history
  | .effect (.useNonce m _ _) =>
    ∃ x, (T.stateAfter history).signing[m]? = some x ∧
      ∀ o, x.packet.oracle? = some o → T.ApprovedSince m o history
  | .action (.signShare sid _ _ _ _ _) =>
    ∃ m n c, msg = .resume (.nonce m n) ∧
      (T.stateAfter history).signing[m]? = some (.collectSigningShares c) ∧ c.signatureId = sid ∧
      T.UsedSince m sid history ∧ ∀ o, c.packet.oracle? = some o → T.ApprovedSince m o history
  | _ => True

theorem gated_of_emits {history : List (Msg E)} {msg : Msg E} {c : Command Action (Effect E)}
    (h : T.Emits (T.stateAfter history) msg c) : T.Gated history msg c := by
  have hgate := T.gate_stateAfter history
  cases h with
  | plain hp =>
    rcases c with (a | e)
    · cases a <;> trivial
    · cases e <;> trivial
  | request => trivial
  | approval => trivial
  | reveal hs hsid =>
    exact ⟨_, _, rfl, hs, by rw [← hsid]; rfl, fun o ho => hgate.approved _ _ o hs rfl ho⟩
  | useNonce hd hi hs => exact ⟨_, hs, fun o ho => hgate.approved _ _ o hs rfl ho⟩
  | signShare hs hr =>
    exact ⟨_, _, _, rfl, hs, rfl, hgate.used _ _ hs, fun o ho => hgate.approved _ _ o hs rfl ho⟩
  | reconcile => trivial

/-- **Nothing passes the gate unapproved.**  Whatever the machine emits on an input -- an update
that extends or uncles the chain, a resume, a restart -- is emitted by a message of the canonical
history the input leaves, and the history before that message is one the gate lets it through
on. -/
theorem gated_emitted (inputs : List (Input Event (Resume E))) (i : Input Event (Resume E))
    (c : Command Action (Effect E))
    (hc : c ∈ ((machineAfter T.applyTransition (State.default E) inputs).input T.applyTransition
      (State.default E) i).2) :
    ∃ history msg rest status,
      (recorded T.applyTransition (State.default E) (inputs ++ [i])).inner =
        some ((T.stateAfter (history ++ msg :: rest), history ++ msg :: rest), status) ∧
      c ∈ (T.applyTransition (T.stateAfter history) msg).2 ∧ T.Gated history msg c := by
  obtain ⟨history, msg, rest, status, hlive, hmem⟩ :=
    emitted_on_history T.applyTransition (State.default E) inputs i hc
  exact ⟨history, msg, rest, status, hlive, hmem, T.gated_of_emits (emits_applyTransition hmem)⟩

/-- Whether a command burns the nonce of a message. -/
def usesNonce (m : B256) : Command Action (Effect E) → Bool
  | .effect (.useNonce message _ _) => message = m
  | _ => false

open Toy in
/-- The last reveal of an approved round burns the nonce, through the gate. -/
theorem gated_emitted_useNonce : ∃ c, usesNonce message c = true ∧
    ∃ history msg rest status,
      (recorded (validator 1).applyTransition (State.default crates)
          (approvedInputs ++ [.update lastReveal])).inner =
        some (((validator 1).stateAfter (history ++ msg :: rest), history ++ msg :: rest), status) ∧
      c ∈ ((validator 1).applyTransition ((validator 1).stateAfter history) msg).2 ∧
      (validator 1).Gated history msg c := by
  have hany : ((machineAfter (validator 1).applyTransition (State.default crates)
      approvedInputs).input (validator 1).applyTransition (State.default crates)
      (.update lastReveal)).2.any (usesNonce message) = true := by
    decide +kernel
  obtain ⟨c, hc, hu⟩ := List.any_eq_true.mp hany
  exact ⟨c, hu, (validator 1).gated_emitted _ _ c hc⟩

/-! ## 3. Approvals and retries -/

/-- The log is the approval the session of `m` waited for after `past`. -/
def Approves (past : List (Msg E)) (log : EventLog Event) (m : B256) : Prop :=
  ∃ w, (T.stateAfter past).signing[m]? = some (.waitingForOracle w) ∧
    log.data = .oracleResult m true ∧ log.address = w.oracle

/-- The session of `m` is never closed along `ms`. -/
def HeldThrough (past ms : List (Msg E)) (m : B256) : Prop :=
  ∀ p, p <+: ms → ((T.stateAfter (past ++ p)).signing[m]?).isSome = true

/-- As long as the session of `m` is the same, it does not wait for its oracle. -/
def NeverAwaits (past ms : List (Msg E)) (m : B256) : Prop :=
  ∀ p, p <+: ms → T.HeldThrough past p m →
    ((T.stateAfter (past ++ p)).signing[m]?).any SigningState.awaitsOracle = false

/-- The message is a `Sign` log over `m`, of the group of a session that waits for its request,
with a nonce of ours linked to its sequence. -/
def Reopens (s : State E) (m : B256) (msg : Msg E) : Prop :=
  ∃ log gid sid q w, msg = .event log ∧ log.data = .sign gid m sid q ∧
    s.signing[m]? = some (.waitingForRequest w) ∧ w.groupId = gid ∧ s.linkedRoot gid q ≠ none

/-- One message does not bring a session back to its oracle, unless it reopens it. -/
theorem awaitsOracle_step {s : State E} {m : B256} {msg : Msg E}
    (h : (s.signing[m]?).any SigningState.awaitsOracle = false) (hok : ¬ Reopens s m msg) :
    (((T.applyTransition s msg).1.signing[m]?).any SigningState.awaitsOracle) = false := by
  rcases hx : (T.applyTransition s msg).1.signing[m]? with _ | (w | w | w | w | w)
  case some.waitingForOracle =>
    rcases waitingForOracle_origin hx with hw | ⟨log, gid, sid, q, w', n, rfl, hd, hs, hg, hn, -⟩
    · rw [hw] at h
      exact absurd h (by simp [SigningState.awaitsOracle])
    · refine absurd ⟨log, gid, sid, q, w', rfl, hd, hs, hg, fun hnone => ?_⟩ hok
      rw [observeNonce_eq_none.mpr hnone] at hn
      exact absurd hn (by simp)
  all_goals rfl

/-- **An approval survives** every timeout, restart and log of a run, as long as no `Sign` log
reopens the session. -/
theorem approval_survives (past : List (Msg E)) (log : EventLog Event) (m : B256)
    (ms : List (Msg E)) (happ : T.Approves past log m)
    (hok : ∀ p msg, p ++ [msg] <+: ms → T.HeldThrough (past ++ [.event log]) p m →
      ¬ Reopens (T.stateAfter (past ++ [.event log] ++ p)) m msg) :
    T.NeverAwaits (past ++ [.event log]) ms m := by
  intro p
  induction p using List.reverseRecOn with
  | nil =>
    intro _ _
    obtain ⟨w, hw, hd, ho⟩ := happ
    rw [List.append_nil, stateAfter_concat, signing_applyTransition]
    simp only [sessionAfter, hd, if_true, hw, afterOracleResult, ho, Option.any_some,
      SigningState.awaitsOracle]
  | append_singleton p msg ih =>
    intro hp hheld
    have hheld' : T.HeldThrough (past ++ [.event log]) p m :=
      fun q hq => hheld q (hq.trans (List.prefix_append p [msg]))
    have hp' : p <+: ms := (List.prefix_append p [msg]).trans hp
    rw [← List.append_assoc, stateAfter_concat]
    exact T.awaitsOracle_step (ih hp' hheld') (hok p msg hp hheld')

/-- Whether a session waits for an oracle. -/
def awaitsOracleAt (oracle : Address) : SigningState E → Bool
  | .waitingForOracle w => oracle = w.oracle
  | _ => false

theorem approves_of_awaits {past : List (Msg E)} {log : EventLog Event} {m : B256}
    (hd : log.data = .oracleResult m true)
    (h : ((T.stateAfter past).signing[m]?).any (awaitsOracleAt log.address) = true) :
    T.Approves past log m := by
  rcases hs : (T.stateAfter past).signing[m]? with _ | (w | w | w | w | w) <;> rw [hs] at h
  case some.waitingForOracle => exact ⟨w, hs, hd, of_decide_eq_true h⟩
  all_goals exact absurd h (by simp [awaitsOracleAt])

theorem heldThrough_of_inits {past ms : List (Msg E)} {m : B256}
    (h : ∀ p ∈ ms.inits, ((T.stateAfter (past ++ p)).signing[m]?).isSome = true) :
    T.HeldThrough past ms m :=
  fun p hp => h p ((List.mem_inits p ms).mpr hp)

open Toy in
/-- The approval of a requested transaction. -/
theorem approves_requested : (validator 1).Approves requestedRun (approval 17) message :=
  (validator 1).approves_of_awaits rfl (by decide +kernel)

open Toy in
/-- Three of four signers reveal and the round times out: the session waits for another request. -/
theorem approval_survives_timeout :
    (validator 1).NeverAwaits (requestedRun ++ [.event (approval 17)]) timedOut message := by
  refine (validator 1).approval_survives _ _ _ _ approves_requested ?_
  rintro p msg hp - ⟨log, gid, sid, q, w, rfl, hd, -⟩
  have hmem : Message.event log ∈ timedOut := hp.subset (by simp)
  simp only [timedOut, List.mem_cons, Message.event.injEq, List.not_mem_nil, or_false,
    reduceCtorEq] at hmem
  rcases hmem with rfl | rfl | rfl <;> exact absurd hd (by simp [revealed, eventLog])

open Toy in
/-- The request of the retry sends the approved transaction back to its oracle. -/
theorem approval_lost :
    ¬ ∀ (past : List (Msg crates)) (log : EventLog Event) (m : B256) (ms : List (Msg crates)),
      (validator 1).Approves past log m →
      (validator 1).NeverAwaits (past ++ [.event log]) ms m := by
  intro h
  have hnever := h requestedRun (approval 17) message (timedOut ++ [.event (request 24 1)])
    approves_requested _ (List.prefix_refl _)
    ((validator 1).heldThrough_of_inits (by decide +kernel))
  exact absurd hnever (by decide +kernel)

end Transition

end Safenet
