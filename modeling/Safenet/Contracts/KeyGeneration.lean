/-
# The key generation of one group, onchain

What the coordinator's counters MEAN.  A group's logs say who committed, shared and confirmed,
which complaints were filed and which of them were answered; `Ledger` is that record, and
`Books` says that the storage of the group is an account of it: the pending counter is what is
missing in the current phase, and the two counters of a participant are its open complaints.

Every accepted call books its log and keeps the account (`GroupStep.books`).  The rest is read
off: which decrements can run into zero (none), what a finalized group went through, and that a
status is never taken back.
-/
import Safenet.Validator.Toy

namespace Safenet

namespace Coordinator

/-! ## 1. The ledger -/

/-- Who did what in a key generation; a complaint is a plaintiff and an accused. -/
structure Ledger where
  committed : Finset Address
  shared : Finset Address
  confirmed : Finset Address
  filed : Finset (Address × Address)
  answered : Finset (Address × Address)

namespace Ledger

/-- Nothing happened. -/
def blank : Ledger := ⟨∅, ∅, ∅, ∅, ∅⟩

/-- Book one log. -/
def book (l : Ledger) : Event → Ledger
  | .keyGenCommitted _ a _ => { l with committed := insert a l.committed }
  | .keyGenSecretShared _ a _ => { l with shared := insert a l.shared }
  | .keyGenConfirmed _ a => { l with confirmed := insert a l.confirmed }
  | .keyGenComplained _ p a _ => { l with filed := insert (p, a) l.filed }
  | .keyGenComplaintResponded _ p a _ => { l with answered := insert (p, a) l.answered }
  | _ => l

/-- The complaints without a response. -/
def unresolved (l : Ledger) : Finset (Address × Address) := l.filed \ l.answered

/-- The unresolved complaints a participant filed. -/
def complaintsBy (l : Ledger) (p : Address) : Finset (Address × Address) :=
  l.unresolved.filter fun c => c.1 = p

/-- The unresolved complaints against a participant. -/
def complaintsAgainst (l : Ledger) (a : Address) : Finset (Address × Address) :=
  l.unresolved.filter fun c => c.2 = a

end Ledger

/-- The ledger of a list of logs. -/
def ledger (events : List Event) : Ledger := events.foldl Ledger.book .blank

theorem ledger_concat (events : List Event) (e : Event) :
    ledger (events ++ [e]) = (ledger events).book e := by
  simp [ledger]

/-- What the pending counter counts: the participants still missing in the current phase, at
least one.  A compromised group keeps the counter of the phase it was compromised in. -/
def PhaseOk (l : Ledger) (s : GroupState) : Prop :=
  let sharing := l.committed.card = s.count ∧ 0 < s.pending ∧
    s.pending + l.shared.card = s.count ∧ l.confirmed = ∅
  let confirming := l.committed.card = s.count ∧ l.shared.card = s.count ∧ 0 < s.pending ∧
    s.pending + l.confirmed.card = s.count
  match s.status with
  | .uninitialized => s.pending = 0 ∧ s.count = 0 ∧ l.committed = ∅
  | .committing => 0 < s.pending ∧ s.pending + l.committed.card = s.count ∧ l.shared = ∅ ∧
      l.confirmed = ∅
  | .sharing => sharing
  | .confirming => confirming
  | .finalized => l.committed.card = s.count ∧ l.shared.card = s.count ∧
      l.confirmed.card = s.count ∧ s.pending = 0
  | .compromised => sharing ∨ confirming

/-- The storage of a group accounts for its ledger. -/
structure Books (l : Ledger) (g : CoordinatorGroup) : Prop where
  committed : ∀ a, a ∈ l.committed ↔ (g.participants.states a).status ≠ .none
  shared : ∀ a, a ∈ l.shared ↔ g.participants.keys a ≠ ⟨0, 0⟩
  confirmed : ∀ a, a ∈ l.confirmed ↔ (g.participants.states a).status = .confirmed
  shared_sub : l.shared ⊆ l.committed
  filed : ∀ p a, (p, a) ∈ l.filed ↔ g.participants.complaints p a ≠ .none
  answered : ∀ p a, (p, a) ∈ l.answered ↔ g.participants.complaints p a = .responded
  plaintiffs : ∀ p a, (p, a) ∈ l.filed → p ∈ l.committed
  complaints : ∀ p, (g.participants.states p).complaints = (l.complaintsBy p).card
  accusations : ∀ a, (g.participants.states a).accusations = (l.complaintsAgainst a).card
  clear : ∀ p ∈ l.confirmed, (g.participants.states p).complaints = 0
  phase : PhaseOk l g.state

/-! ## 2. Counting -/

/-- Filing a new complaint adds one on the side it is counted on. -/
theorem card_file {f : Address × Address → Address} {l : Ledger} {c : Address × Address}
    {e : Event} (he : (l.book e).filed = insert c l.filed) (ha : (l.book e).answered = l.answered)
    (hc : c ∉ l.filed) (hca : c ∉ l.answered) (x : Address) :
    ((l.book e).unresolved.filter fun d => f d = x).card =
      (l.unresolved.filter fun d => f d = x).card + if x = f c then 1 else 0 := by
  have hset : (l.book e).unresolved = insert c l.unresolved := by
    rw [Ledger.unresolved, he, ha, Finset.insert_sdiff_of_notMem _ hca, Ledger.unresolved]
  have hnew : c ∉ l.unresolved.filter fun d => f d = x :=
    fun h => hc (Finset.mem_sdiff.mp (Finset.mem_filter.mp h).1).1
  rw [hset, Finset.filter_insert]
  by_cases hx : f c = x
  · rw [if_pos hx, if_pos hx.symm, Finset.card_insert_of_notMem hnew]
  · rw [if_neg hx, if_neg (Ne.symm hx), Nat.add_zero]

/-- Answering an open complaint takes one off. -/
theorem card_answer {f : Address × Address → Address} {l : Ledger} {c : Address × Address}
    {e : Event} (he : (l.book e).answered = insert c l.answered) (hf : (l.book e).filed = l.filed)
    (hc : c ∈ l.unresolved) (x : Address) :
    (l.unresolved.filter fun d => f d = x).card =
      ((l.book e).unresolved.filter fun d => f d = x).card + if x = f c then 1 else 0 := by
  have hset : (l.book e).unresolved = l.unresolved.erase c := by
    rw [Ledger.unresolved, he, hf, Ledger.unresolved]
    exact (Finset.sdiff_insert ..)
  rw [hset, Finset.filter_erase]
  by_cases hx : f c = x
  · have hmem : c ∈ l.unresolved.filter fun d => f d = x := Finset.mem_filter.mpr ⟨hc, hx⟩
    rw [if_pos hx.symm, Finset.card_erase_add_one hmem]
  · have hmem : c ∉ l.unresolved.filter fun d => f d = x :=
      fun h => hx (Finset.mem_filter.mp h).2
    rw [if_neg (Ne.symm hx), Finset.erase_eq_of_notMem hmem, Nat.add_zero]

/-! ## 3. Every call keeps the account -/

/-- Setting a status leaves the counters alone. -/
theorem setStatus_states (m : ParticipantMap) (a : Address) (st : ParticipantStatus) (x : Address) :
    (m.setState a { m.states a with status := st }).states x =
      { m.states x with status := if x = a then st else (m.states x).status } := by
  by_cases hx : x = a
  · subst hx
    simp [ParticipantMap.setState]
  · simp [ParticipantMap.setState, hx]

theorem Books.answered_sub {l : Ledger} {g : CoordinatorGroup} (h : Books l g) :
    l.answered ⊆ l.filed := by
  rintro ⟨p, a⟩ hc
  rw [h.filed, (h.answered p a).mp hc]
  simp

/-- A complaint that is submitted is unresolved. -/
theorem Books.mem_unresolved {l : Ledger} {g : CoordinatorGroup} (h : Books l g) (p a : Address) :
    (p, a) ∈ l.unresolved ↔ g.participants.complaints p a = .submitted := by
  rw [Ledger.unresolved, Finset.mem_sdiff, h.filed, h.answered]
  cases g.participants.complaints p a <;> simp

theorem Books.keyGen {l : Ledger} {root : B256} {count threshold : Nat} (h : Books l .empty)
    (hcount : 0 < count) :
    Books l { CoordinatorGroup.empty with
      participants := { CoordinatorGroup.empty.participants with root }
      state := ⟨.committing, count, threshold, count, 0⟩ } := by
  have hcommitted : l.committed = ∅ :=
    Finset.eq_empty_of_forall_notMem fun a ha => (h.committed a).mp ha rfl
  have hshared : l.shared = ∅ :=
    Finset.eq_empty_of_forall_notMem fun a ha => (h.shared a).mp ha rfl
  have hconfirmed : l.confirmed = ∅ :=
    Finset.eq_empty_of_forall_notMem fun a ha =>
      absurd ((h.confirmed a).mp ha) (by simp [CoordinatorGroup.empty])
  refine { h with phase := ?_ }
  exact ⟨hcount, by rw [hcommitted]; rfl, hshared, hconfirmed⟩

theorem Books.commit {l : Ledger} {g : CoordinatorGroup} {gid : B256} {sender : Address}
    {commitment : KeyGenCommitment} {pending : Nat} {participants : ParticipantMap} {key : Point}
    (h : Books l g) (hs : g.state.status = .committing) (hp : g.state.pending = pending + 1)
    (hreg : g.participants.register sender = some participants) :
    Books (l.book (.keyGenCommitted gid sender commitment))
      { g with participants, state := advance g.state pending .sharing, key } := by
  obtain ⟨hnone, rfl⟩ := ParticipantMap.register_eq_some hreg
  have hnew : sender ∉ l.committed := fun ha => (h.committed sender).mp ha hnone
  have hphase := h.phase
  simp only [PhaseOk, hs] at hphase
  obtain ⟨hpos, hsum, hshared, hconfirmed⟩ := hphase
  refine { h with
    committed := fun a => ?_, confirmed := fun a => ?_
    shared_sub := h.shared_sub.trans (Finset.subset_insert _ _)
    plaintiffs := fun p a hc => Finset.mem_insert_of_mem (h.plaintiffs p a hc)
    complaints := fun p => ?_, accusations := fun a => ?_, clear := fun p hc => ?_, phase := ?_ }
  · rw [setStatus_states, Ledger.book, Finset.mem_insert, h.committed]
    by_cases ha : a = sender <;> simp [ha]
  · rw [setStatus_states, Ledger.book, h.confirmed]
    by_cases ha : a = sender
    · simp [ha, hnone]
    · simp [ha]
  · rw [setStatus_states]
    exact h.complaints p
  · rw [setStatus_states]
    exact h.accusations a
  · rw [setStatus_states]
    exact h.clear p hc
  · have hcard := Finset.card_insert_of_notMem hnew
    unfold advance
    split
    · refine ⟨?_, ?_, ?_, hconfirmed⟩
      · simp only [Ledger.book]
        omega
      · dsimp only
        omega
      · simp only [Ledger.book, hshared, Finset.card_empty, Nat.add_zero]
    · simp only [PhaseOk, hs]
      refine ⟨by omega, ?_, hshared, hconfirmed⟩
      simp only [Ledger.book]
      omega

theorem Books.share {l : Ledger} {g : CoordinatorGroup} {gid : B256} {sender : Address}
    {share : KeyGenSecretShare} {pending : Nat} {participants : ParticipantMap}
    (h : Books l g) (hs : g.state.status = .sharing) (hp : g.state.pending = pending + 1)
    (hy : Secp256k1.satisfiesCurveEquation share.y = true)
    (hset : g.participants.set sender share.y = some participants) :
    Books (l.book (.keyGenSecretShared gid sender share))
      { g with participants, state := advance g.state pending .confirming } := by
  obtain ⟨hregd, hkey, rfl⟩ := ParticipantMap.set_eq_some hset
  -- A key that is set cannot be the identity, so it marks the participant as done.
  have hne : share.y ≠ ⟨0, 0⟩ := by
    intro h0
    rw [h0] at hy
    exact absurd (Secp256k1.satisfiesCurveEquation_zero.symm.trans hy) (by decide)
  have hnew : sender ∉ l.shared := fun ha => (h.shared sender).mp ha hkey
  have hphase := h.phase
  simp only [PhaseOk, hs] at hphase
  obtain ⟨hcommitted, hpos, hsum, hconfirmed⟩ := hphase
  refine { h with shared := fun a => ?_, shared_sub := ?_, phase := ?_ }
  · rw [Ledger.book, Finset.mem_insert, h.shared]
    by_cases ha : a = sender
    · subst ha
      simp [hne]
    · simp [ha]
  · refine Finset.insert_subset ?_ h.shared_sub
    exact (h.committed sender).mpr (by rw [hregd]; simp)
  · have hcard := Finset.card_insert_of_notMem hnew
    unfold advance
    split
    · refine ⟨hcommitted, ?_, ?_, ?_⟩
      · simp only [Ledger.book]
        omega
      · dsimp only
        omega
      · simp only [Ledger.book, hconfirmed, Finset.card_empty, Nat.add_zero]
    · simp only [PhaseOk, hs]
      refine ⟨hcommitted, by omega, ?_, hconfirmed⟩
      simp only [Ledger.book]
      omega

theorem Books.confirm {l : Ledger} {g : CoordinatorGroup} {gid : B256} {sender : Address}
    {pending : Nat} {participants : ParticipantMap}
    (h : Books l g) (hs : g.state.status = .confirming) (hp : g.state.pending = pending + 1)
    (hc : g.participants.confirm sender = some participants) :
    Books (l.book (.keyGenConfirmed gid sender))
      { g with participants
               state := if pending = 0 then { g.state with status := .finalized, pending }
                 else { g.state with pending } } := by
  obtain ⟨hregd, hzero, rfl⟩ := ParticipantMap.confirm_eq_some hc
  have hnew : sender ∉ l.confirmed :=
    fun ha => absurd ((h.confirmed sender).mp ha) (by rw [hregd]; simp)
  have hphase := h.phase
  simp only [PhaseOk, hs] at hphase
  obtain ⟨hcommitted, hshared, hpos, hsum⟩ := hphase
  refine { h with
    committed := fun a => ?_, confirmed := fun a => ?_, complaints := fun p => ?_
    accusations := fun a => ?_, clear := fun p hp => ?_, phase := ?_ }
  · rw [setStatus_states, Ledger.book, h.committed]
    by_cases ha : a = sender
    · simp [ha, hregd]
    · simp [ha]
  · rw [setStatus_states, Ledger.book, Finset.mem_insert, h.confirmed]
    by_cases ha : a = sender <;> simp [ha]
  · rw [setStatus_states]
    exact h.complaints p
  · rw [setStatus_states]
    exact h.accusations a
  · rw [setStatus_states]
    rcases Finset.mem_insert.mp hp with rfl | hp
    · exact hzero
    · exact h.clear p hp
  · have hcard := Finset.card_insert_of_notMem hnew
    split
    · rename_i hlast
      refine ⟨hcommitted, hshared, ?_, hlast⟩
      simp only [Ledger.book]
      omega
    · simp only [PhaseOk, hs]
      refine ⟨hcommitted, hshared, by omega, ?_⟩
      simp only [Ledger.book]
      omega

theorem Books.complain {l : Ledger} {g : CoordinatorGroup} {gid : B256} {p a : Address} {b : Bool}
    {participants : ParticipantMap} {n : Nat} (h : Books l g)
    (hs : g.state.status = .sharing ∨ g.state.status = .confirming)
    (hc : g.participants.complain p a = some (participants, n)) :
    Books (l.book (.keyGenComplained gid p a b))
      { g with participants
               state := if g.state.threshold ≤ n then { g.state with status := .compromised }
                 else g.state } := by
  obtain ⟨-, hnone, hregd, -, -, -, hkeys, hcomplaints, hstates⟩ :=
    ParticipantMap.complain_eq_some hc
  have hnew : (p, a) ∉ l.filed := fun hm => (h.filed p a).mp hm hnone
  have hopen : (p, a) ∉ l.answered := fun hm => hnew (h.answered_sub hm)
  have hrow : ∀ q x, participants.complaints q x =
      if q = p ∧ x = a then .submitted else g.participants.complaints q x := by
    intro q x
    rw [hcomplaints, ParticipantMap.setComplaint]
    by_cases hq : q = p
    · subst hq
      by_cases hx : x = a <;> simp [hx]
    · simp [hq]
  refine
    { committed := fun x => ?_, shared := fun x => ?_, confirmed := fun x => ?_
      shared_sub := h.shared_sub, filed := fun q x => ?_, answered := fun q x => ?_
      plaintiffs := fun q x hm => ?_, complaints := fun q => ?_, accusations := fun x => ?_
      clear := fun q hq => ?_, phase := ?_ }
  · rw [hstates]
    exact h.committed x
  · rw [hkeys]
    exact h.shared x
  · rw [hstates]
    exact h.confirmed x
  · rw [hrow, Ledger.book, Finset.mem_insert, h.filed, Prod.mk.injEq]
    by_cases hqx : q = p ∧ x = a <;> simp [hqx]
  · rw [hrow, Ledger.book, h.answered]
    by_cases hqx : q = p ∧ x = a
    · rw [if_pos hqx, hqx.1, hqx.2, hnone]
      simp
    · rw [if_neg hqx]
  · rcases Finset.mem_insert.mp hm with he | hm
    · rw [Prod.mk.injEq] at he
      rw [he.1]
      exact (h.committed p).mpr (by rw [hregd]; simp)
    · exact h.plaintiffs q x hm
  · rw [hstates, Ledger.complaintsBy,
      card_file (f := Prod.fst) (c := (p, a)) rfl rfl hnew hopen]
    exact congrArg (· + _) (h.complaints q)
  · rw [hstates, Ledger.complaintsAgainst,
      card_file (f := Prod.snd) (c := (p, a)) rfl rfl hnew hopen]
    exact congrArg (· + _) (h.accusations x)
  · have hqp : q ≠ p := by
      rintro rfl
      exact absurd ((h.confirmed q).mp hq) (by rw [hregd]; simp)
    rw [hstates, if_neg hqp]
    exact h.clear q hq
  · have hphase := h.phase
    dsimp only
    split
    · rcases hs with hs | hs
      · simp only [PhaseOk, hs] at hphase
        exact .inl hphase
      · simp only [PhaseOk, hs] at hphase
        exact .inr hphase
    · exact hphase

theorem Books.respond {l : Ledger} {g : CoordinatorGroup} {gid : B256} {p a : Address} {x : U256}
    {participants : ParticipantMap} (h : Books l g)
    (hr : g.participants.respond p a = some participants) :
    Books (l.book (.keyGenComplaintResponded gid p a x)) { g with participants } := by
  obtain ⟨hsub, -, hkeys, hcomplaints, hstates⟩ := ParticipantMap.respond_eq_some hr
  have hopen : (p, a) ∈ l.unresolved := (h.mem_unresolved p a).mpr hsub
  have hrow : ∀ q y, participants.complaints q y =
      if q = p ∧ y = a then .responded else g.participants.complaints q y := by
    intro q y
    rw [hcomplaints, ParticipantMap.setComplaint]
    by_cases hq : q = p
    · subst hq
      by_cases hy : y = a <;> simp [hy]
    · simp [hq]
  have hby : ∀ q, (g.participants.states q).complaints = _ := fun q => (h.complaints q).trans
    (card_answer (f := Prod.fst) (c := (p, a)) (e := .keyGenComplaintResponded gid p a x)
      rfl rfl hopen q)
  have hagainst : ∀ y, (g.participants.states y).accusations = _ := fun y =>
    (h.accusations y).trans (card_answer (f := Prod.snd) (c := (p, a))
      (e := .keyGenComplaintResponded gid p a x) rfl rfl hopen y)
  refine
    { committed := fun y => ?_, shared := fun y => ?_, confirmed := fun y => ?_
      shared_sub := h.shared_sub, filed := fun q y => ?_, answered := fun q y => ?_
      plaintiffs := h.plaintiffs, complaints := fun q => ?_, accusations := fun y => ?_
      clear := fun q hq => ?_, phase := h.phase }
  · rw [hstates]
    exact h.committed y
  · rw [hkeys]
    exact h.shared y
  · rw [hstates]
    exact h.confirmed y
  · rw [hrow, Ledger.book, h.filed]
    by_cases hqy : q = p ∧ y = a
    · rw [if_pos hqy, hqy.1, hqy.2, hsub]
      simp
    · rw [if_neg hqy]
  · rw [hrow, Ledger.book, Finset.mem_insert, h.answered, Prod.mk.injEq]
    by_cases hqy : q = p ∧ y = a <;> simp [hqy]
  · rw [hstates, hby q]
    exact Nat.add_sub_cancel ..
  · rw [hstates, hagainst y]
    exact Nat.add_sub_cancel ..
  · rw [hstates, h.clear q hq]
    exact Nat.zero_sub _

/-- **Every accepted call books its log and keeps the account.** -/
theorem GroupStep.books {L : ContractLibraries} {gid : B256} {g g' : CoordinatorGroup} {e : Event}
    {l : Ledger} (hok : SlotOk gid g) (h : GroupStep L gid g e g') (hb : Books l g) :
    Books (l.book e) g' := by
  cases h with
  | keyGen _ hle hlt _ hr =>
    have hempty := hok.unused hr
    subst hempty
    exact hb.keyGen (by omega)
  | commit hs hp _ hreg => exact hb.commit hs hp hreg
  | share hs hp hy hset => exact hb.share hs hp hy hset
  | confirm hs hp hc => exact hb.confirm hs hp hc
  | complain hs hc => exact hb.complain hs hc
  | respond _ hr => exact hb.respond hr
  | preprocess _ _ => exact { hb with }
  | sign _ _ _ _ => exact { hb with phase := hb.phase }

theorem books_run {L : ContractLibraries} {gid : B256} {g : CoordinatorGroup} {events : List Event}
    (h : Run (GroupStep L gid) .empty events g) : SlotOk gid g ∧ Books (ledger events) g := by
  refine h.induction (fun events g => SlotOk gid g ∧ Books (ledger events) g) ⟨slotOk_empty gid, ?_⟩ ?_
  · refine ⟨?_, ?_, ?_, ?_, ?_, ?_, ?_, ?_, ?_, ?_, ?_⟩ <;>
      simp [ledger, Ledger.blank, CoordinatorGroup.empty, Ledger.complaintsBy,
        Ledger.complaintsAgainst, Ledger.unresolved, PhaseOk]
  · rintro past g g' e ⟨hok, hb⟩ hst
    rw [ledger_concat]
    exact ⟨hst.slotOk hok, hst.books hok hb⟩

/-! ## 4. The state machine -/

/-- How far a key generation got; the last two statuses are final. -/
def rank : GroupStatus → Nat
  | .uninitialized => 0
  | .committing => 1
  | .sharing => 2
  | .confirming => 3
  | .finalized => 4
  | .compromised => 4

/-- The status stayed, or moved forward. -/
def Forward (s s' : GroupState) : Prop := s'.status = s.status ∨ rank s.status < rank s'.status

theorem Forward.trans {s s₁ s₂ : GroupState} (h : Forward s s₁) (h' : Forward s₁ s₂) :
    Forward s s₂ := by
  unfold Forward at *
  rcases h' with h' | h'
  · rw [h']
    exact h
  · rcases h with h | h
    · rw [h] at h'
      exact .inr h'
    · exact .inr (h.trans h')

/-- Nothing is ahead of a final status. -/
theorem Forward.final {s s' : GroupState} (h : Forward s s') (hf : rank s.status = 4) :
    s'.status = s.status := by
  rcases h with h | h
  · exact h
  · rw [hf] at h
    cases hs : s'.status <;> rw [hs] at h <;> exact absurd h (by decide)

theorem advance_forward {s : GroupState} {pending : Nat} {next : GroupStatus}
    (h : rank s.status < rank next) : Forward s (advance s pending next) := by
  unfold advance
  split
  · exact .inr h
  · exact .inl rfl

theorem GroupStep.forward {L : ContractLibraries} {gid : B256} {g g' : CoordinatorGroup} {e : Event}
    (hok : SlotOk gid g) (h : GroupStep L gid g e g') : Forward g.state g'.state := by
  cases h with
  | keyGen _ _ _ _ hr =>
    rw [hok.unused hr]
    exact .inr (by decide : rank .uninitialized < rank .committing)
  | commit hs _ _ _ => exact advance_forward (by rw [hs]; decide)
  | share hs _ _ _ => exact advance_forward (by rw [hs]; decide)
  | confirm hs _ _ =>
    dsimp only
    split
    · exact .inr (by rw [hs]; exact (by decide : rank .confirming < rank .finalized))
    · exact .inl rfl
  | complain hs _ =>
    dsimp only
    split
    · rcases hs with hs | hs
      · exact .inr (by rw [hs]; exact (by decide : rank .sharing < rank .compromised))
      · exact .inr (by rw [hs]; exact (by decide : rank .confirming < rank .compromised))
    · exact .inl rfl
  | respond _ _ => exact .inl rfl
  | preprocess _ _ => exact .inl rfl
  | sign _ _ _ _ => exact .inl rfl

theorem forward_run {L : ContractLibraries} {gid : B256} {g g' : CoordinatorGroup}
    {events : List Event} (hok : SlotOk gid g) (h : Run (GroupStep L gid) g events g') :
    SlotOk gid g' ∧ Forward g.state g'.state := by
  refine h.induction (fun _ g' => SlotOk gid g' ∧ Forward g.state g'.state) ⟨hok, .inl rfl⟩ ?_
  rintro past g₁ g₂ e ⟨hok, hf⟩ hst
  exact ⟨hst.slotOk hok, hf.trans (hst.forward hok)⟩

/-- The participants that acted in the phase of a status. -/
def Ledger.acted (l : Ledger) : GroupStatus → Finset Address
  | .committing => l.committed
  | .sharing => l.shared
  | .confirming => l.confirmed
  | .finalized => l.confirmed
  | _ => ∅

/-- What a key generation's storage promises, whatever calls were made. -/
structure Sound (l : Ledger) (g : CoordinatorGroup) : Prop where
  /-- `pending` is who has not acted yet. -/
  pending : g.state.status ≠ .compromised →
    g.state.pending + (l.acted g.state.status).card = g.state.count
  /-- A compromised group stopped counting in the phase it was in. -/
  pending_compromised : g.state.status = .compromised →
    g.state.pending + l.shared.card = g.state.count ∨
      g.state.pending + l.confirmed.card = g.state.count
  /-- Only participants that committed act later. -/
  acted : l.shared ⊆ l.committed ∧ l.confirmed ⊆ l.committed ∧ l.committed.card ≤ g.state.count
  /-- A finalized group had every participant act, and every complaint answered. -/
  finalized : g.state.status = .finalized → l.committed.card = g.state.count ∧
    l.shared = l.committed ∧ l.confirmed = l.committed ∧ l.unresolved = ∅
  complaints : ∀ p, (g.participants.states p).complaints = (l.complaintsBy p).card
  accusations : ∀ a, (g.participants.states a).accusations = (l.complaintsAgainst a).card
  /-- Where `pending` is decremented it is not zero. -/
  pending_pos : g.state.status = .committing ∨ g.state.status = .sharing ∨
    g.state.status = .confirming → g.state.pending ≠ 0
  /-- Where a response decrements the two counters of a complaint they are not zero. -/
  counters_pos : ∀ p a, g.participants.complaints p a = .submitted →
    (g.participants.states p).complaints ≠ 0 ∧ (g.participants.states a).accusations ≠ 0

theorem Books.confirmed_sub {l : Ledger} {g : CoordinatorGroup} (h : Books l g) :
    l.confirmed ⊆ l.committed := by
  intro a ha
  rw [h.committed, (h.confirmed a).mp ha]
  simp

/-- A plaintiff confirms only once its complaints are answered, so when everyone confirmed no
complaint is open. -/
theorem Books.finalized {l : Ledger} {g : CoordinatorGroup} (h : Books l g)
    (hs : g.state.status = .finalized) : l.committed.card = g.state.count ∧
      l.shared = l.committed ∧ l.confirmed = l.committed ∧ l.unresolved = ∅ := by
  have hphase := h.phase
  simp only [PhaseOk, hs] at hphase
  obtain ⟨hcommitted, hshared, hconfirmed, -⟩ := hphase
  have hall : l.confirmed = l.committed :=
    Finset.eq_of_subset_of_card_le h.confirmed_sub (by rw [hcommitted, hconfirmed])
  refine ⟨hcommitted, Finset.eq_of_subset_of_card_le h.shared_sub (by rw [hcommitted, hshared]),
    hall, Finset.eq_empty_of_forall_notMem ?_⟩
  rintro ⟨p, a⟩ hc
  have hp : p ∈ l.confirmed := hall ▸ h.plaintiffs p a (Finset.mem_sdiff.mp hc).1
  have hzero : (l.complaintsBy p).card = 0 := (h.complaints p).symm.trans (h.clear p hp)
  have hmem : (p, a) ∈ l.complaintsBy p := Finset.mem_filter.mpr ⟨hc, rfl⟩
  rw [Finset.card_eq_zero.mp hzero] at hmem
  exact absurd hmem (Finset.notMem_empty _)

theorem Books.sound {l : Ledger} {g : CoordinatorGroup} (h : Books l g) : Sound l g := by
  have hphase := h.phase
  refine
    { pending := fun hs => ?_, pending_compromised := fun hs => ?_
      acted := ⟨h.shared_sub, h.confirmed_sub, ?_⟩, finalized := h.finalized
      complaints := h.complaints, accusations := h.accusations
      pending_pos := fun hs => ?_, counters_pos := fun p a hc => ?_ }
  · cases hst : g.state.status <;> simp only [PhaseOk, hst] at hphase <;>
      simp only [Ledger.acted, Finset.card_empty]
    case compromised => exact absurd hst hs
    all_goals omega
  · simp only [PhaseOk, hs] at hphase
    rcases hphase with ⟨-, -, hsum, -⟩ | ⟨-, -, -, hsum⟩
    · exact .inl hsum
    · exact .inr hsum
  · cases hst : g.state.status <;> simp only [PhaseOk, hst] at hphase
    case uninitialized => rw [hphase.2.2, Finset.card_empty]; exact Nat.zero_le _
    case compromised => rcases hphase with ⟨h, -⟩ | ⟨h, -⟩ <;> omega
    all_goals omega
  · rcases hs with hs | hs | hs <;> simp only [PhaseOk, hs] at hphase <;> omega
  · have hc := (h.mem_unresolved p a).mpr hc
    rw [h.complaints, h.accusations]
    exact ⟨Finset.card_ne_zero_of_mem (Finset.mem_filter.mpr ⟨hc, rfl⟩),
      Finset.card_ne_zero_of_mem (Finset.mem_filter.mpr ⟨hc, rfl⟩)⟩

variable (L : ContractLibraries)

theorem execAll_append (C : Coordinator) (calls more : List (Address × Call)) :
    execAll L C (calls ++ more) = ((execAll L (execAll L C calls).1 more).1,
      (execAll L C calls).2 ++ (execAll L (execAll L C calls).1 more).2) := by
  induction calls generalizing C with
  | nil => rfl
  | cons call calls ih =>
    obtain ⟨sender, call⟩ := call
    cases hx : exec L C sender call with
    | none => simp only [List.cons_append, execAll, hx, ih]
    | some r => simp only [List.cons_append, execAll, hx, ih, List.append_assoc]

/-- **The key-generation state machine.**  After any calls, the counters of every group are an
account of what its participants did, no decrement can run into zero, and whatever is called
next the status only moves forward. -/
theorem keyGen_sound (calls more : List (Address × Call)) (gid : B256) :
    let before := execAll L initial calls
    let after := execAll L initial (calls ++ more)
    Sound (ledger (groupLog gid before.2)) (before.1.groups gid) ∧
      Forward (before.1.groups gid).state (after.1.groups gid).state := by
  obtain ⟨hok, hbooks⟩ := books_run (groupRun_execAll L gid calls)
  obtain ⟨ls, hrun, -⟩ := execAll_run L more (execAll L initial calls).1
  refine ⟨hbooks.sound, ?_⟩
  rw [execAll_append]
  exact (forward_run hok (groupRun_of_run gid hrun)).2

/-! ## 5. Shares published in answer to complaints -/

/-- The complaints filed, in order. -/
def complaintLog (events : List Event) : List (Address × Address) :=
  events.filterMap fun
    | .keyGenComplained _ p a _ => some (p, a)
    | _ => none

/-- The complaints answered, in order. -/
def responseLog (events : List Event) : List (Address × Address) :=
  events.filterMap fun
    | .keyGenComplaintResponded _ p a _ => some (p, a)
    | _ => none

theorem complaintLog_append (a b : List Event) :
    complaintLog (a ++ b) = complaintLog a ++ complaintLog b := List.filterMap_append

theorem responseLog_append (a b : List Event) :
    responseLog (a ++ b) = responseLog a ++ responseLog b := List.filterMap_append

theorem filed_ledger (events : List Event) :
    (ledger events).filed = (complaintLog events).toFinset := by
  induction events using List.reverseRecOn with
  | nil => rfl
  | append_singleton events e ih =>
    rw [ledger_concat, complaintLog_append, List.toFinset_append]
    cases e <;> simp [Ledger.book, ih, complaintLog, Finset.union_comm]

theorem answered_ledger (events : List Event) :
    (ledger events).answered = (responseLog events).toFinset := by
  induction events using List.reverseRecOn with
  | nil => rfl
  | append_singleton events e ih =>
    rw [ledger_concat, responseLog_append, List.toFinset_append]
    cases e <;> simp [Ledger.book, ih, responseLog, Finset.union_comm]

/-- **A complaint is filed at most once, and answered at most once.** -/
theorem complaints_nodup {L : ContractLibraries} {gid : B256} {g : CoordinatorGroup}
    {events : List Event} (h : Run (GroupStep L gid) .empty events g) :
    (complaintLog events).Nodup ∧ (responseLog events).Nodup := by
  induction h with
  | refl => exact ⟨List.nodup_nil, List.nodup_nil⟩
  | @tail events g g' e hrun hst ih =>
    have hbooks := (books_run hrun).2
    rw [complaintLog_append, responseLog_append]
    cases hst with
    | @complain p a _ _ hs hc =>
      obtain ⟨-, hnone, -⟩ := ParticipantMap.complain_eq_some hc
      have hnew : (p, a) ∉ complaintLog events := fun hm =>
        (hbooks.filed p a).mp (by rw [filed_ledger]; exact List.mem_toFinset.mpr hm) hnone
      refine ⟨?_, (List.append_nil (responseLog events)).symm ▸ ih.2⟩
      exact List.nodup_append.mpr ⟨ih.1, List.nodup_singleton _, fun x hx y hy hxy =>
        hnew (by rw [List.mem_singleton.mp hy] at hxy; exact hxy ▸ hx)⟩
    | @respond p a _ _ hs hr =>
      obtain ⟨hsub, -⟩ := ParticipantMap.respond_eq_some hr
      have hnew : (p, a) ∉ responseLog events := fun hm =>
        absurd ((hbooks.answered p a).mp (by rw [answered_ledger]; exact List.mem_toFinset.mpr hm))
          (by rw [hsub]; simp)
      refine ⟨(List.append_nil (complaintLog events)).symm ▸ ih.1, ?_⟩
      exact List.nodup_append.mpr ⟨ih.2, List.nodup_singleton _, fun x hx y hy hxy =>
        hnew (by rw [List.mem_singleton.mp hy] at hxy; exact hxy ▸ hx)⟩
    | _ =>
      exact ⟨(List.append_nil (complaintLog events)).symm ▸ ih.1,
        (List.append_nil (responseLog events)).symm ▸ ih.2⟩

/-- How many of a participant's secret shares were published. -/
def published (events : List Event) (p : Address) : Nat :=
  ((responseLog events).filter fun c => c.2 = p).length

/-- How many complaints were filed against a participant, answered or not. -/
def accused (events : List Event) (p : Address) : Nat :=
  ((complaintLog events).filter fun c => c.2 = p).length

/-- In a finalized group every complaint was answered, so what was filed was published. -/
theorem published_eq_accused {L : ContractLibraries} {gid : B256} {g : CoordinatorGroup}
    {events : List Event} (h : Run (GroupStep L gid) .empty events g)
    (hs : g.state.status = .finalized) (p : Address) : published events p = accused events p := by
  obtain ⟨hfiled, hanswered⟩ := complaints_nodup h
  have hbooks := (books_run h).2
  have hall : (ledger events).filed = (ledger events).answered := by
    refine Finset.Subset.antisymm ?_ hbooks.answered_sub
    exact Finset.sdiff_eq_empty_iff_subset.mp (hbooks.finalized hs).2.2.2
  rw [filed_ledger, answered_ledger] at hall
  have hperm := List.perm_of_nodup_nodup_toFinset_eq hfiled hanswered hall
  exact (hperm.filter _).length_eq.symm

/-- **When the shares published of every participant of a finalized group stay below the
threshold:** exactly when the complaints filed against it did, answered or not.  The contract
compares the threshold with the unanswered ones only. -/
theorem published_lt_iff (calls : List (Address × Call)) (gid : B256) :
    let result := execAll L initial calls
    let events := groupLog gid result.2
    let state := (result.1.groups gid).state
    state.status = .finalized → ((∀ p, published events p < state.threshold) ↔
      ∀ p, accused events p < state.threshold) := by
  intro result events state hs
  have heq := published_eq_accused (groupRun_execAll L gid calls) hs
  exact forall_congr' fun p => by rw [heq p]

open Toy in
theorem published_lt_iff_one :
    let result := execAll libraries initial (complaintCalls [1])
    let events := groupLog group.id result.2
    let state := (result.1.groups group.id).state
    state.status = .finalized ∧ published events 4 = 1 ∧
      ((∀ p, published events p < state.threshold) ↔ ∀ p, accused events p < state.threshold) :=
  ⟨by decide +kernel, by decide +kernel, published_lt_iff libraries _ _ (by decide +kernel)⟩

open Toy in
/-- Three complaints, each answered at once, publish a threshold of the fourth validator's
shares, and the group is finalized. -/
theorem published_reaches_threshold :
    let result := execAll libraries initial (complaintCalls [1, 2, 3])
    let state := (result.1.groups group.id).state
    state.status = .finalized ∧ ¬ published (groupLog group.id result.2) 4 < state.threshold := by
  decide +kernel

end Coordinator

end Safenet
