/-
# Complaint accounting

A complaint names a plaintiff and an accused; the coordinator keeps one slot for the pair, the
validator two counters for the accused.  What the counters stand for is a TALLY (`Tally`): the
complaints the validator counted, and those it saw answered in time, kept along a run.

* Every complaint counted is in `total`, answered or not, so a restart comes at a threshold of
  complaints FILED (`restarts_iff`), while the coordinator compares the threshold with the ones
  still open.  The two differ exactly on answered complaints.
* `unresponded` is the number of counted complaints still open -- as long as no response is booked
  against a complaint of somebody else (`Booked`).  A complaint filed after its deadline is not
  counted, but its response is, and then the accused escapes with an open complaint.
-/
import Safenet.Validator.Agreement
import Safenet.Contracts.KeyGeneration

namespace Safenet

open Frost

variable {E : Crates}

/-! ## 1. The complaints of a round -/

namespace Ceremony

variable {T : Transition E}

/-- The complaints of the round of a group, from its last commitment on. -/
def openComplaints (gid : B256) : Ceremony E → Option (BTreeMap Address Complaint)
  | .shares c => if c.group.id = gid then some c.complaints else none
  | .confirmations c => if c.group.id = gid then some c.complaints else none
  | _ => none

/-- The complaints booked against a participant. -/
def against (k : BTreeMap Address Complaint) (a : Address) : Complaint := (k[a]?).getD default

/-- Whether a message is a complaint that is counted, or a response that is taken. -/
def books (T : Transition E) (gid : B256) (r : Ceremony E) : Msg E → Bool
  | .event log =>
    match log.data with
    | .keyGenComplained g _ _ _ => g = gid && (counting T log.block gid r).isSome
    | .keyGenComplaintResponded g _ _ _ => g = gid && (answering log.block gid r).isSome
    | _ => false
  | _ => false

/-- How one message leads to the complaints of a round. -/
inductive ComplaintStep (T : Transition E) (gid : B256) (r : Ceremony E) :
    Msg E → BTreeMap Address Complaint → Prop where
  /-- The last commitment opens the books. -/
  | opened {msg : Msg E} : openComplaints gid r = none → ComplaintStep T gid r msg ∅
  | same {msg : Msg E} {k : BTreeMap Address Complaint} : openComplaints gid r = some k →
      books T gid r msg = false → ComplaintStep T gid r msg k
  | filed {log : EventLog Event} {p a : Address} {b : Bool} {k : BTreeMap Address Complaint} :
      log.data = .keyGenComplained gid p a b → (counting T log.block gid r).isSome →
      openComplaints gid r = some k →
      ComplaintStep T gid r (.event log) (k.insert a (Transition.raiseComplaint (against k a)))
  /-- Nothing is open against the accused. -/
  | idle {log : EventLog Event} {p a : Address} {x : U256} {k : BTreeMap Address Complaint} :
      log.data = .keyGenComplaintResponded gid p a x → (answering log.block gid r).isSome →
      openComplaints gid r = some k → (against k a).unresponded = 0 →
      ComplaintStep T gid r (.event log) k
  | answered {log : EventLog Event} {p a : Address} {x : U256} {k : BTreeMap Address Complaint} :
      log.data = .keyGenComplaintResponded gid p a x → (answering log.block gid r).isSome →
      openComplaints gid r = some k → 0 < (against k a).unresponded →
      ComplaintStep T gid r (.event log)
        (k.insert a { against k a with unresponded := (against k a).unresponded - 1 })

theorem openComplaints_failed (gid : B256) (e : EpochId) :
    openComplaints gid (failed e : Ceremony E) = none := by
  cases e <;> rfl

theorem openComplaints_restarted (gid : B256) (e : EpochId) (x : Finset Address)
    (d : Option Nat) : openComplaints gid (restarted T e x d) = none := by
  unfold restarted
  split
  · exact openComplaints_failed _ _
  · split
    · rfl
    · exact openComplaints_failed _ _

theorem openComplaints_closed {gid : B256} {c : CommitmentRound E} {d : Option Nat}
    {k : BTreeMap Address Complaint} (h : openComplaints gid (closed c d) = some k) : k = ∅ := by
  unfold closed at h
  split at h
  · simp only [openComplaints, Option.ite_none_right_eq_some, Option.some.injEq] at h
    exact h.2.symm
  · rw [openComplaints_failed] at h
    exact absurd h (by simp)

theorem openComplaints_withComplaints (gid : B256) (r : Ceremony E)
    (k : BTreeMap Address Complaint) :
    openComplaints gid (r.withComplaints k) = (openComplaints gid r).map fun _ => k := by
  cases r <;> simp only [withComplaints, openComplaints, Option.map_none] <;>
    rw [apply_ite (Option.map _), Option.map_some, Option.map_none]

theorem counting_open {block : Nat} {gid g : B256} {r : Ceremony E} {e : EpochId} {gr : Group}
    {k : BTreeMap Address Complaint} {d : Option Nat}
    (h : counting T block gid r = some (e, gr, k, d)) :
    openComplaints g r = if gid = g then some k else none := by
  cases r with
  | shares c =>
    simp only [counting, Option.ite_none_right_eq_some, Option.some.injEq, Prod.mk.injEq] at h
    obtain ⟨hg, -, -, rfl, -⟩ := h
    rw [openComplaints, hg]
  | confirmations c =>
    simp only [counting, Option.ite_none_right_eq_some, Option.some.injEq, Prod.mk.injEq] at h
    obtain ⟨⟨hg, -⟩, -, -, rfl, -⟩ := h
    rw [openComplaints, hg]
  | _ => exact absurd h (by simp [counting])

theorem answering_open {block : Nat} {gid g : B256} {r : Ceremony E} {e : EpochId} {gr : Group}
    {y : GroupCommitments E} {k : BTreeMap Address Complaint} {d : Option Nat}
    (h : answering block gid r = some (e, gr, y, k, d)) :
    openComplaints g r = if gid = g then some k else none := by
  cases r with
  | shares c =>
    simp only [answering, Option.ite_none_right_eq_some, Option.some.injEq, Prod.mk.injEq] at h
    obtain ⟨hg, -, -, -, rfl, -⟩ := h
    rw [openComplaints, hg]
  | confirmations c =>
    simp only [answering, Option.ite_none_right_eq_some, Option.some.injEq, Prod.mk.injEq] at h
    obtain ⟨⟨hg, -⟩, -, -, -, rfl, -⟩ := h
    rw [openComplaints, hg]
  | _ => exact absurd h (by simp [answering])

theorem openComplaints_clock {block : Nat} {a : EpochId} {gid : B256} {r : Ceremony E}
    {k : BTreeMap Address Complaint} (h : openComplaints gid (clock T block a r).2 = some k) :
    openComplaints gid r = some k := by
  unfold clock at h
  split at h
  · exact h
  · dsimp only at h
    split at h
    · exact h
    · dsimp only at h
      split at h
      · exact absurd h (by simp [started, openComplaints])
      · exact absurd h (by simp [openComplaints])

theorem openComplaints_afterTimeouts {block : Nat} {gid : B256} {r : Ceremony E}
    {k : BTreeMap Address Complaint} (h : openComplaints gid (afterTimeouts T block r) = some k) :
    openComplaints gid r = some k := by
  unfold afterTimeouts at h
  split at h
  · rw [openComplaints_failed] at h
    exact absurd h (by simp)
  · split at h
    · exact h
    · rw [openComplaints_restarted] at h
      exact absurd h (by simp)

/-- What a complaint log does to the complaints. -/
theorem afterComplained_open {gid g : B256} {p a : Address} {b : Bool} {r : Ceremony E}
    {log : EventLog Event} {k' : BTreeMap Address Complaint}
    (hd : log.data = .keyGenComplained g p a b)
    (h : openComplaints gid (afterComplained T log.block g a r) = some k') :
    ComplaintStep T gid r (.event log) k' := by
  unfold afterComplained at h
  cases hc : counting T log.block g r with
  | none =>
    rw [hc] at h
    refine .same h ?_
    by_cases hg : g = gid
    · subst hg
      simp [books, hd, hc]
    · simp [books, hd, hg]
  | some v =>
    obtain ⟨e, gr, k, d⟩ := v
    have hopen := counting_open (g := gid) hc
    rw [hc] at h
    dsimp only at h
    split at h
    · rw [openComplaints_restarted] at h
      exact absurd h (by simp)
    · by_cases hg : g = gid
      · subst hg
        rw [if_pos rfl] at hopen
        rw [openComplaints_withComplaints, hopen, Option.map_some, Option.some.injEq] at h
        rw [← h]
        exact .filed hd (by rw [hc]; rfl) hopen
      · rw [if_neg hg] at hopen
        rw [openComplaints_withComplaints, hopen] at h
        exact absurd h (by simp)

/-- What a response log does to the complaints. -/
theorem afterResponded_open {gid g : B256} {p a : Address} {x : U256} {r : Ceremony E}
    {log : EventLog Event} {k' : BTreeMap Address Complaint}
    (hd : log.data = .keyGenComplaintResponded g p a x)
    (h : openComplaints gid (afterResponded T log.block g p a x r) = some k') :
    ComplaintStep T gid r (.event log) k' := by
  unfold afterResponded at h
  cases hc : answering log.block g r with
  | none =>
    rw [hc] at h
    refine .same h ?_
    by_cases hg : g = gid
    · subst hg
      simp [books, hd, hc]
    · simp [books, hd, hg]
  | some v =>
    obtain ⟨e, gr, y, k, d⟩ := v
    have hopen := answering_open (g := gid) hc
    have hother : g ≠ gid → openComplaints gid r = none := by
      intro hg
      rw [hopen, if_neg hg]
    rw [hc] at h
    dsimp only at h
    by_cases hg : g = gid
    · subst hg
      rw [if_pos rfl] at hopen
      cases hk : k[a]? with
      | none =>
        rw [hk] at h
        rw [hopen, Option.some.injEq] at h
        subst h
        exact .idle hd (by rw [hc]; rfl) hopen (by rw [against, hk]; rfl)
      | some complaint =>
        have hag : against k a = complaint := by rw [against, hk]; rfl
        rw [hk] at h
        dsimp only at h
        by_cases hz : complaint.unresponded = 0
        · rw [if_pos hz, hopen, Option.some.injEq] at h
          subst h
          exact .idle hd (by rw [hc]; rfl) hopen (by rw [hag]; exact hz)
        · rw [if_neg hz] at h
          split at h
          · rw [openComplaints_withComplaints, hopen, Option.map_some, Option.some.injEq,
              ← hag] at h
            rw [← h]
            exact .answered hd (by rw [hc]; rfl) hopen
              (by rw [hag]; exact Nat.pos_of_ne_zero hz)
          · rw [openComplaints_restarted] at h
            exact absurd h (by simp)
    · have hnone := hother hg
      exfalso
      split at h
      · rw [hnone] at h
        exact absurd h (by simp)
      · split at h
        · rw [hnone] at h
          exact absurd h (by simp)
        · split at h
          · rw [openComplaints_withComplaints, hnone] at h
            exact absurd h (by simp)
          · rw [openComplaints_restarted] at h
            exact absurd h (by simp)

/-- **The complaints of a round** are opened by its last commitment, and change by the logs of its
group only. -/
theorem step_openComplaints {a : EpochId} {gid : B256} {r : Ceremony E} {msg : Msg E}
    {k : BTreeMap Address Complaint} (h : openComplaints gid (step T a r msg) = some k) :
    ComplaintStep T gid r msg k := by
  have hsame : openComplaints gid r = some k → books T gid r msg = false → ComplaintStep T gid r msg k :=
    fun h hb => .same h hb
  cases msg with
  | newBlock block =>
    exact hsame (openComplaints_clock (openComplaints_afterTimeouts h)) rfl
  | resume x =>
    cases x with
    | setup gid' y =>
      cases r with
      | commitments c =>
        rw [step, afterSetup] at h
        split at h
        · split at h
          · exact absurd h (by simp [openComplaints])
          · rw [openComplaints_closed h]
            exact .opened rfl
        · exact absurd h (by simp [openComplaints])
      | _ => exact hsame h rfl
    | _ => exact hsame h rfl
  | event log =>
    cases hd : log.data <;> simp only [step, hd] at h
    case keyGen gid' =>
      cases r with
      | waitingForGenesis =>
        rw [afterKeyGen] at h
        split at h
        · exact absurd h (by simp [started, openComplaints])
        · exact absurd h (by simp [openComplaints])
      | _ => exact hsame h (by simp [books, hd])
    case keyGenCommitted gid' p c =>
      cases r with
      | commitments c =>
        rw [afterCommitted] at h
        dsimp only at h
        split at h
        · split at h
          · exact absurd h (by simp [openComplaints])
          · rw [openComplaints_closed h]
            exact .opened rfl
        · exact absurd h (by simp [openComplaints])
      | _ => exact hsame h (by simp [books, hd])
    case keyGenSecretShared gid' p c =>
      refine hsame ?_ (by simp [books, hd])
      cases r with
      | shares c =>
        rw [afterShared] at h
        dsimp only at h
        split at h
        · split at h
          · exact h
          · exact h
        · exact h
      | _ => exact h
    case keyGenConfirmed gid' p =>
      refine hsame ?_ (by simp [books, hd])
      cases r with
      | confirmations c =>
        rw [afterConfirmed] at h
        dsimp only at h
        split at h
        · split at h
          · exact h
          · split at h
            · unfold afterGenesis at h
              dsimp only at h
              split at h
              · exact absurd h (by simp [openComplaints])
              · exact absurd h (by simp [started, openComplaints])
            · exact absurd h (by simp [openComplaints])
        · exact h
      | _ => exact h
    case keyGenComplained g p x b => exact afterComplained_open hd h
    case keyGenComplaintResponded g p x y => exact afterResponded_open hd h
    case epochStaged p g sid =>
      refine hsame ?_ (by simp [books, hd])
      cases r with
      | waitingForGenesis =>
        rw [afterStaged] at h
        split at h
        · exact absurd h (by simp [openComplaints])
        · exact absurd h (by simp [openComplaints])
      | signing c =>
        rw [afterStaged] at h
        split at h
        · exact absurd h (by simp [openComplaints])
        · exact absurd h (by simp [openComplaints])
      | _ => exact h
    all_goals exact hsame h (by simp [books, hd])

/-- Before the books of a round are open, nothing is booked. -/
theorem not_books_of_none {gid : B256} {r : Ceremony E} {msg : Msg E}
    (h : openComplaints gid r = none) : books T gid r msg = false := by
  by_contra hb
  rw [Bool.not_eq_false] at hb
  cases msg with
  | event log =>
    simp only [books] at hb
    split at hb
    · rw [Bool.and_eq_true, decide_eq_true_eq] at hb
      obtain ⟨⟨e, gr, k, d⟩, hc⟩ := Option.isSome_iff_exists.mp hb.2
      rw [counting_open hc, if_pos rfl] at h
      exact absurd h (by simp)
    · rw [Bool.and_eq_true, decide_eq_true_eq] at hb
      obtain ⟨⟨e, gr, y, k, d⟩, hc⟩ := Option.isSome_iff_exists.mp hb.2
      rw [answering_open hc, if_pos rfl] at h
      exact absurd h (by simp)
    · exact absurd hb (by simp)
  | _ => exact absurd hb (by simp [books])

end Ceremony

/-! ## 2. The tally -/

open Coordinator (Ledger ledger groupLog complaintLog responseLog GroupStep)

/-- Books a log; other messages have nothing to book. -/
def bookMessage (l : Ledger) : Msg E → Ledger
  | .event log => l.book log.data
  | _ => l

/-- Books the message a round of the group counts or takes, and starts over with the round. -/
def Ceremony.tally (T : Transition E) (gid : B256) (r r' : Ceremony E) (l : Ledger)
    (msg : Msg E) : Ledger :=
  if (openComplaints gid r').isSome then if books T gid r msg then bookMessage l msg else l
  else .blank

namespace Transition

variable {T : Transition E}

/-- The complaints the validator counted, and the responses it took, in the round of a group. -/
def tallyAfter (T : Transition E) (gid : B256) (ms : List (Msg E)) : Ledger :=
  (ms.foldl (fun st msg =>
    let s' := (T.applyTransition st.1 msg).1
    (s', Ceremony.tally T gid st.1.rollover.ceremony s'.rollover.ceremony st.2 msg))
    (State.default E, Ledger.blank)).2

/-- The ceremony after some messages. -/
def ceremonyAfter (T : Transition E) (ms : List (Msg E)) : Ceremony E :=
  (T.stateAfter ms).rollover.ceremony

theorem tallyAfter_concat (gid : B256) (ms : List (Msg E)) (msg : Msg E) :
    T.tallyAfter gid (ms ++ [msg]) = Ceremony.tally T gid (T.ceremonyAfter ms)
      (T.ceremonyAfter (ms ++ [msg])) (T.tallyAfter gid ms) msg := by
  have hfst : ∀ ms : List (Msg E), (ms.foldl (fun st msg =>
      let s' := (T.applyTransition st.1 msg).1
      (s', Ceremony.tally T gid st.1.rollover.ceremony s'.rollover.ceremony st.2 msg))
      (State.default E, Ledger.blank)).1 = T.stateAfter ms := by
    intro ms
    induction ms using List.reverseRecOn with
    | nil => rfl
    | append_singleton ms msg ih =>
      rw [stateAfter_concat, List.foldl_append, List.foldl_cons, List.foldl_nil, ih]
  rw [tallyAfter, List.foldl_append, List.foldl_cons, List.foldl_nil]
  dsimp only
  rw [hfst, ceremonyAfter, ceremonyAfter, stateAfter_concat]
  rfl

/-- Outside the round the tally is blank. -/
theorem tallyAfter_of_none {gid : B256} {ms : List (Msg E)}
    (h : Ceremony.openComplaints gid (T.ceremonyAfter ms) = none) :
    T.tallyAfter gid ms = .blank := by
  rcases List.eq_nil_or_concat' ms with rfl | ⟨ms, msg, rfl⟩
  · rfl
  · rw [tallyAfter_concat, Ceremony.tally, h]
    rfl

theorem tallyAfter_of_some {gid : B256} {ms : List (Msg E)} {msg : Msg E}
    (h : (Ceremony.openComplaints gid (T.ceremonyAfter (ms ++ [msg]))).isSome) :
    T.tallyAfter gid (ms ++ [msg]) = if Ceremony.books T gid (T.ceremonyAfter ms) msg then
      bookMessage (T.tallyAfter gid ms) msg else T.tallyAfter gid ms := by
  rw [tallyAfter_concat, Ceremony.tally, if_pos h]

/-- The logs of a group a run saw. -/
def groupEvents (gid : B256) (ms : List (Msg E)) : List Event := groupLog gid (events ms)

theorem groupEvents_concat (gid : B256) (ms : List (Msg E)) (log : EventLog Event) :
    groupEvents gid (ms ++ [.event log]) = groupEvents gid ms ++ groupLog gid [log.data] := by
  rw [groupEvents, events_append, Coordinator.groupLog_append]
  rfl

theorem groupEvents_append (gid : B256) (ms ms' : List (Msg E)) :
    groupEvents gid (ms ++ ms') = groupEvents gid ms ++ groupEvents gid ms' := by
  rw [groupEvents, events_append, Coordinator.groupLog_append]
  rfl

/-- A booked message is a complaint or a response of the group. -/
theorem exists_of_books {gid : B256} {r : Ceremony E} {msg : Msg E}
    (h : Ceremony.books T gid r msg = true) : ∃ log : EventLog Event, msg = .event log ∧
      log.data.group? = some gid ∧ ((∃ p a b, log.data = .keyGenComplained gid p a b) ∨
        ∃ p a x, log.data = .keyGenComplaintResponded gid p a x) := by
  cases msg with
  | event log =>
    refine ⟨log, rfl, ?_⟩
    simp only [Ceremony.books] at h
    split at h
    · rename_i g p a b hd
      rw [Bool.and_eq_true, decide_eq_true_eq] at h
      obtain ⟨rfl, -⟩ := h
      rw [hd]
      exact ⟨rfl, .inl ⟨p, a, b, rfl⟩⟩
    · rename_i g p a x hd
      rw [Bool.and_eq_true, decide_eq_true_eq] at h
      obtain ⟨rfl, -⟩ := h
      rw [hd]
      exact ⟨rfl, .inr ⟨p, a, x, rfl⟩⟩
    · exact absurd h (by simp)
  | _ => exact absurd h (by simp [Ceremony.books])

/-- What is booked was logged. -/
theorem tallyAfter_sub (gid : B256) (ms : List (Msg E)) :
    (T.tallyAfter gid ms).filed ⊆ (ledger (groupEvents gid ms)).filed ∧
      (T.tallyAfter gid ms).answered ⊆ (ledger (groupEvents gid ms)).answered := by
  induction ms using List.reverseRecOn with
  | nil => exact ⟨Finset.Subset.refl _, Finset.Subset.refl _⟩
  | append_singleton ms msg ih =>
    have hgrow : (ledger (groupEvents gid ms)).filed ⊆
          (ledger (groupEvents gid (ms ++ [msg]))).filed ∧
        (ledger (groupEvents gid ms)).answered ⊆
          (ledger (groupEvents gid (ms ++ [msg]))).answered := by
      rw [groupEvents_append]
      simp only [Coordinator.filed_ledger, Coordinator.answered_ledger,
        Coordinator.complaintLog_append, Coordinator.responseLog_append, List.toFinset_append]
      exact ⟨Finset.subset_union_left, Finset.subset_union_left⟩
    rw [tallyAfter_concat, Ceremony.tally]
    split
    · split
      · rename_i hb
        obtain ⟨log, rfl, hg, hkind⟩ := exists_of_books hb
        have hone : groupLog gid [log.data] = [log.data] := by
          rw [groupLog, List.filter_singleton, hg]
          simp
        rw [groupEvents_concat, hone, Coordinator.ledger_concat, bookMessage]
        rcases hkind with ⟨p, a, b, hd⟩ | ⟨p, a, x, hd⟩
        · rw [hd]
          exact ⟨Finset.insert_subset_insert _ ih.1, ih.2⟩
        · rw [hd]
          exact ⟨ih.1, Finset.insert_subset_insert _ ih.2⟩
      · exact ⟨ih.1.trans hgrow.1, ih.2.trans hgrow.2⟩
    · exact ⟨Finset.empty_subset _, Finset.empty_subset _⟩

/-! ## 3. What the coordinator emits -/

/-- The logs of a group a run saw are the coordinator's. -/
def FromCoordinator (L : ContractLibraries) (gid : B256) (ms : List (Msg E)) : Prop :=
  ∃ calls, groupEvents gid ms <+: groupLog gid (Coordinator.execAll L Coordinator.initial calls).2

theorem FromCoordinator.init {L : ContractLibraries} {gid : B256} {ms ms' : List (Msg E)}
    (h : FromCoordinator L gid (ms ++ ms')) : FromCoordinator L gid ms := by
  obtain ⟨calls, h⟩ := h
  rw [groupEvents_append] at h
  exact ⟨calls, (List.prefix_append _ _).trans h⟩

/-- The group went through the logs seen so far. -/
theorem FromCoordinator.run {L : ContractLibraries} {gid : B256} {ms : List (Msg E)}
    (h : FromCoordinator L gid ms) :
    ∃ g, Run (GroupStep L gid) .empty (groupEvents gid ms) g := by
  obtain ⟨calls, rest, hrest⟩ := h
  have hrun := Coordinator.groupRun_execAll L gid calls
  rw [← hrest] at hrun
  obtain ⟨g, hg, -⟩ := hrun.split
  exact ⟨g, hg⟩

/-- A log of the group is one step of it. -/
theorem FromCoordinator.step {L : ContractLibraries} {gid : B256} {ms : List (Msg E)}
    {log : EventLog Event} (h : FromCoordinator L gid (ms ++ [.event log]))
    (hg : log.data.group? = some gid) : ∃ g g', Coordinator.Books (ledger (groupEvents gid ms)) g ∧
      GroupStep L gid g log.data g' := by
  obtain ⟨g', hrun⟩ := h.run
  have hone : groupLog gid [log.data] = [log.data] := by
    rw [groupLog, List.filter_singleton, hg]
    simp
  rw [groupEvents_concat, hone] at hrun
  obtain ⟨g, hg, hst⟩ := hrun.of_concat
  exact ⟨g, g', (Coordinator.books_run hg).2, hst⟩

/-- A complaint is new: neither filed nor answered before. -/
theorem FromCoordinator.complaint {L : ContractLibraries} {gid : B256} {ms : List (Msg E)}
    {log : EventLog Event} {p a : Address} {b : Bool}
    (h : FromCoordinator L gid (ms ++ [.event log])) (hd : log.data = .keyGenComplained gid p a b) :
    (p, a) ∉ (T.tallyAfter gid ms).filed ∧ (p, a) ∉ (T.tallyAfter gid ms).answered := by
  obtain ⟨g, g', hbooks, hst⟩ := h.step (by rw [hd]; rfl)
  rw [hd] at hst
  have hnew : (p, a) ∉ (ledger (groupEvents gid ms)).filed := by
    cases hst with
    | complain hs hc =>
      intro hm
      exact (hbooks.filed p a).mp hm (ParticipantMap.complain_eq_some hc).2.1
  obtain ⟨hfiled, hanswered⟩ := tallyAfter_sub (T := T) gid ms
  exact ⟨fun hm => hnew (hfiled hm), fun hm => hnew (hbooks.answered_sub (hanswered hm))⟩

/-- A response is new. -/
theorem FromCoordinator.response {L : ContractLibraries} {gid : B256} {ms : List (Msg E)}
    {log : EventLog Event} {p a : Address} {x : U256}
    (h : FromCoordinator L gid (ms ++ [.event log]))
    (hd : log.data = .keyGenComplaintResponded gid p a x) :
    (p, a) ∉ (T.tallyAfter gid ms).answered := by
  obtain ⟨g, g', hbooks, hst⟩ := h.step (by rw [hd]; rfl)
  rw [hd] at hst
  cases hst with
  | respond hs hr =>
    intro hm
    have hmem := (tallyAfter_sub (T := T) gid ms).2 hm
    have hresp := (hbooks.answered p a).mp hmem
    rw [(ParticipantMap.respond_eq_some hr).1] at hresp
    exact absurd hresp (by simp)

/-! ## 4. What the counters count -/

/-- The complaints against a participant, answered or not. -/
def filedAgainst (l : Ledger) (a : Address) : Finset (Address × Address) :=
  l.filed.filter fun c => c.2 = a

theorem against_insert (k : BTreeMap Address Complaint) (a x : Address) (c : Complaint) :
    Ceremony.against (k.insert a c) x = if x = a then c else Ceremony.against k x := by
  rw [Ceremony.against, BTreeMap.get_insert]
  by_cases hx : x = a
  · rw [if_pos hx, if_pos hx]
    rfl
  · rw [if_neg hx, if_neg hx]
    rfl

/-- The complaints of a round change as the ceremony's do. -/
theorem complaintStep_of_run {gid : B256} {ms : List (Msg E)} {msg : Msg E}
    {k : BTreeMap Address Complaint}
    (h : Ceremony.openComplaints gid (T.ceremonyAfter (ms ++ [msg])) = some k) :
    Ceremony.ComplaintStep T gid (T.ceremonyAfter ms) msg k := by
  rw [ceremonyAfter, stateAfter_concat] at h
  rcases ceremony_applyTransition (T := T) (T.stateAfter ms) msg with hstep | ⟨-, e, g, -, hfail⟩
  · rw [hstep] at h
    exact Ceremony.step_openComplaints h
  · rw [hfail, Ceremony.openComplaints_failed] at h
    exact absurd h (by simp)

theorem books_filed {gid : B256} {r : Ceremony E} {log : EventLog Event} {p a : Address} {b : Bool}
    (hd : log.data = .keyGenComplained gid p a b)
    (hc : (Ceremony.counting T log.block gid r).isSome) :
    Ceremony.books T gid r (.event log) = true := by
  simp [Ceremony.books, hd, hc]

theorem books_answered {gid : B256} {r : Ceremony E} {log : EventLog Event} {p a : Address}
    {x : U256} (hd : log.data = .keyGenComplaintResponded gid p a x)
    (hc : (Ceremony.answering log.block gid r).isSome) :
    Ceremony.books T gid r (.event log) = true := by
  simp [Ceremony.books, hd, hc]

/-- **The total counts every complaint counted**, whatever was answered. -/
theorem total_eq {L : ContractLibraries} {gid : B256} {ms : List (Msg E)}
    {k : BTreeMap Address Complaint} (h : FromCoordinator L gid ms)
    (hk : Ceremony.openComplaints gid (T.ceremonyAfter ms) = some k) (x : Address) :
    (Ceremony.against k x).total = (filedAgainst (T.tallyAfter gid ms) x).card := by
  induction ms using List.reverseRecOn generalizing k with
  | nil => exact absurd hk (by simp [ceremonyAfter, stateAfter, State.default,
      RolloverState.ceremony, Ceremony.openComplaints])
  | append_singleton ms msg ih =>
    have htally := tallyAfter_of_some (show (Ceremony.openComplaints gid
      (T.ceremonyAfter (ms ++ [msg]))).isSome by rw [hk]; rfl)
    cases complaintStep_of_run hk with
    | opened hnone =>
      rw [htally, Ceremony.not_books_of_none hnone, tallyAfter_of_none hnone]
      rfl
    | same hk₀ hb =>
      rw [htally, hb]
      exact ih h.init hk₀
    | @filed log p a b k₀ hd hc hk₀ =>
      have hnew := (h.complaint (T := T) hd).1
      have ih := ih h.init hk₀
      rw [htally, books_filed hd hc, if_pos rfl, against_insert, bookMessage, hd, filedAgainst,
        Ledger.book, Finset.filter_insert]
      by_cases hx : x = a
      · subst hx
        rw [if_pos rfl, if_pos rfl, Finset.card_insert_of_notMem
          (fun hm => hnew (Finset.mem_filter.mp hm).1), raiseComplaint, ih, filedAgainst]
      · rw [if_neg hx, if_neg (Ne.symm hx), ih, filedAgainst]
    | @idle log p a y k₀ hd hc hk₀ hz =>
      rw [htally, books_answered hd hc, if_pos rfl, bookMessage, hd]
      exact ih h.init hk₀
    | @answered log p a y k₀ hd hc hk₀ hpos =>
      rw [htally, books_answered hd hc, if_pos rfl, bookMessage, hd, against_insert]
      have ih := ih h.init hk₀
      by_cases hx : x = a
      · subst hx
        rw [if_pos rfl]
        exact ih
      · rw [if_neg hx]
        exact ih

/-- Every response taken answers a complaint that was counted, or nothing is open against its
accused.  It fails when a complaint filed after the deadline, which is not counted, is answered
in time. -/
def ResponsesBooked (T : Transition E) (gid : B256) (ms : List (Msg E)) : Prop :=
  ∀ past log p a x, past ++ [.event log] <+: ms → log.data = .keyGenComplaintResponded gid p a x →
    (Ceremony.answering log.block gid (T.ceremonyAfter past)).isSome →
    (p, a) ∈ (T.tallyAfter gid past).filed ∨ (T.tallyAfter gid past).complaintsAgainst a = ∅

theorem ResponsesBooked.init {gid : B256} {ms ms' : List (Msg E)}
    (h : T.ResponsesBooked gid (ms ++ ms')) : T.ResponsesBooked gid ms :=
  fun past log p a x hp => h past log p a x (hp.trans (List.prefix_append _ _))

theorem complaintsAgainst_response (l : Ledger) (g : B256) (p a x : Address) (y : U256) :
    (l.book (.keyGenComplaintResponded g p a y)).complaintsAgainst x =
      (l.complaintsAgainst x).erase (p, a) := by
  rw [Ledger.complaintsAgainst, Ledger.unresolved, Ledger.book, Finset.sdiff_insert,
    Finset.filter_erase]
  rfl

/-- **What is left open is counted**, when every response is booked against its own complaint. -/
theorem unresponded_eq {L : ContractLibraries} {gid : B256} {ms : List (Msg E)}
    {k : BTreeMap Address Complaint} (h : FromCoordinator L gid ms)
    (hres : T.ResponsesBooked gid ms)
    (hk : Ceremony.openComplaints gid (T.ceremonyAfter ms) = some k) (x : Address) :
    (Ceremony.against k x).unresponded = ((T.tallyAfter gid ms).complaintsAgainst x).card := by
  induction ms using List.reverseRecOn generalizing k x with
  | nil => exact absurd hk (by simp [ceremonyAfter, stateAfter, State.default,
      RolloverState.ceremony, Ceremony.openComplaints])
  | append_singleton ms msg ih =>
    have htally := tallyAfter_of_some (show (Ceremony.openComplaints gid
      (T.ceremonyAfter (ms ++ [msg]))).isSome by rw [hk]; rfl)
    cases complaintStep_of_run hk with
    | opened hnone =>
      rw [htally, Ceremony.not_books_of_none hnone, tallyAfter_of_none hnone]
      rfl
    | same hk₀ hb =>
      rw [htally, hb]
      exact ih h.init hres.init hk₀ x
    | @filed log p a b k₀ hd hc hk₀ =>
      obtain ⟨hfiled, hanswered⟩ := h.complaint (T := T) hd
      have ih := ih h.init hres.init hk₀ x
      rw [htally, books_filed hd hc, if_pos rfl, against_insert, bookMessage, hd,
        Ledger.complaintsAgainst, Coordinator.card_file (f := Prod.snd) (c := (p, a)) rfl rfl
          hfiled hanswered, ← Ledger.complaintsAgainst, ← ih]
      by_cases hx : x = a
      · rw [if_pos hx, if_pos hx, hx]
        rfl
      · rw [if_neg hx, if_neg hx]
        rfl
    | @idle log p a y k₀ hd hc hk₀ hz =>
      have hother := ih h.init hres.init hk₀ x
      have haccused := ih h.init hres.init hk₀ a
      rw [htally, books_answered hd hc, if_pos rfl, bookMessage, hd, complaintsAgainst_response,
        hother, Finset.erase_eq_of_notMem fun hm => ?_]
      rw [hz, eq_comm, Finset.card_eq_zero] at haccused
      have hxa : (p, a).2 = x := (Finset.mem_filter.mp hm).2
      rw [← hxa, haccused] at hm
      exact Finset.notMem_empty _ hm
    | @answered log p a y k₀ hd hc hk₀ hpos =>
      have hother := ih h.init hres.init hk₀ x
      have haccused := ih h.init hres.init hk₀ a
      have hne : (T.tallyAfter gid ms).complaintsAgainst a ≠ ∅ := by
        rw [haccused] at hpos
        exact Finset.card_pos.mp hpos |>.ne_empty
      have hfiled : (p, a) ∈ (T.tallyAfter gid ms).filed :=
        (hres ms log p a y (List.prefix_refl _) hd hc).resolve_right hne
      have hnew := h.response (T := T) hd
      rw [htally, books_answered hd hc, if_pos rfl, bookMessage, hd, against_insert,
        complaintsAgainst_response]
      by_cases hx : x = a
      · subst hx
        have hmem : (p, x) ∈ (T.tallyAfter gid ms).complaintsAgainst x :=
          Finset.mem_filter.mpr ⟨Finset.mem_sdiff.mpr ⟨hfiled, hnew⟩, rfl⟩
        rw [if_pos rfl, Finset.card_erase_of_mem hmem, ← haccused]
      · rw [if_neg hx, hother, Finset.erase_eq_of_notMem]
        exact fun hm => hx (Finset.mem_filter.mp hm).2.symm

/-! ## 5. Who is excluded at the response deadline -/

/-- The participants that left a counted complaint unanswered. -/
def unansweredIn (l : Ledger) : Finset Address := l.unresolved.image Prod.snd

/-- What the complaint accounting of a round owes. -/
structure ComplaintsAccounted (T : Transition E) (gid : B256) (ms : List (Msg E)) : Prop where
  /-- The counter of an accused is the number of counted complaints left unanswered. -/
  counters : ∀ k, Ceremony.openComplaints gid (T.ceremonyAfter ms) = some k → ∀ a,
    (Ceremony.against k a).unresponded = ((T.tallyAfter gid ms).complaintsAgainst a).card
  /-- At the response deadline exactly those that left one unanswered are excluded. -/
  excluded : ∀ c deadlines block, (T.stateAfter ms).rollover = .collectingConfirmations c →
    c.group.id = gid → c.deadlines = some deadlines → deadlines.response ≤ block →
      unresponded c.complaints = unansweredIn (T.tallyAfter gid ms) ∧
      (unansweredIn (T.tallyAfter gid ms) ≠ ∅ →
        T.handleKeyGenTimeouts (T.stateAfter ms) block =
          T.restartKeyGenExcluding (T.stateAfter ms) c.nextEpoch
            (c.group.alsoExclude (unansweredIn (T.tallyAfter gid ms)))
            (some (satAdd block T.config.keyGenTimeout)))

theorem mem_unresponded {k : BTreeMap Address Complaint} {a : Address} :
    a ∈ unresponded k ↔ 0 < (Ceremony.against k a).unresponded := by
  rw [unresponded, Finset.mem_filter, BTreeMap.mem_keySet]
  refine ⟨fun h => h.2, fun h => ⟨?_, h⟩⟩
  rw [Ceremony.against] at h
  cases hk : k[a]? with
  | none =>
    rw [hk] at h
    exact absurd h (by decide)
  | some c => rfl

theorem mem_unansweredIn {l : Ledger} {a : Address} :
    a ∈ unansweredIn l ↔ 0 < (l.complaintsAgainst a).card := by
  rw [Finset.card_pos, unansweredIn, Finset.mem_image]
  constructor
  · rintro ⟨c, hc, rfl⟩
    exact ⟨c, Finset.mem_filter.mpr ⟨hc, rfl⟩⟩
  · rintro ⟨c, hc⟩
    exact ⟨c, (Finset.mem_filter.mp hc).1, (Finset.mem_filter.mp hc).2⟩

/-- **Complaints are accounted for** in every state of a run, over the coordinator's logs, in which
every response taken answers a complaint that was counted. -/
theorem complaints_accounted (T : Transition E) (L : ContractLibraries) (gid : B256)
    (ms : List (Msg E)) (h : FromCoordinator L gid ms) (hres : T.ResponsesBooked gid ms) :
    ∀ past, past <+: ms → T.ComplaintsAccounted gid past := by
  rintro past ⟨rest, rfl⟩
  have hpast := h.init
  have hbooked := hres.init
  refine ⟨fun k hk a => unresponded_eq hpast hbooked hk a, ?_⟩
  intro c deadlines block hr hgid hd hle
  have hk : Ceremony.openComplaints gid (T.ceremonyAfter past) = some c.complaints := by
    rw [ceremonyAfter, hr]
    exact if_pos hgid
  have heq : unresponded c.complaints = unansweredIn (T.tallyAfter gid past) := by
    ext a
    rw [mem_unresponded, mem_unansweredIn, unresponded_eq hpast hbooked hk a]
  refine ⟨heq, fun hne => ?_⟩
  have hstalled : stalledKeyGen block (T.stateAfter past).rollover =
      some (c.nextEpoch, c.group.alsoExclude (unansweredIn (T.tallyAfter gid past))) := by
    rw [hr, stalledKeyGen, hd]
    dsimp only
    rw [heq, if_pos ⟨hle, hne⟩]
  rw [handleKeyGenTimeouts, hstalled, hr]
  rfl

/-- Whether a message, if it is a response that is taken, answers a complaint that was counted or
finds nothing open. -/
def inTurn (T : Transition E) (gid : B256) (past : List (Msg E)) : Msg E → Bool
  | .event log =>
    match log.data with
    | .keyGenComplaintResponded g p a _ =>
      !(g = gid && (Ceremony.answering log.block gid (T.ceremonyAfter past)).isSome) ||
        (p, a) ∈ (T.tallyAfter gid past).filed || (T.tallyAfter gid past).complaintsAgainst a = ∅
    | _ => true
  | _ => true

theorem responsesBooked_of_take {gid : B256} {ms : List (Msg E)}
    (h : ∀ i : Fin ms.length, T.inTurn gid (ms.take i) (ms.get i) = true) :
    T.ResponsesBooked gid ms := by
  rintro past log p a x ⟨rest, rfl⟩ hd hc
  have hi : past.length < (past ++ [Message.event log] ++ rest).length := by simp
  have hget := h ⟨past.length, hi⟩
  simpa [inTurn, hd, hc] using hget

open Toy in
/-- Two complaints are answered in turn. -/
theorem complaints_accounted_answered :
    (validator 1).ComplaintsAccounted (epochGroup ∅).id answeredRun :=
  complaints_accounted (validator 1) libraries (epochGroup ∅).id answeredRun
    ⟨answeredCalls, by decide +kernel⟩ (responsesBooked_of_take (by decide +kernel)) answeredRun
    (List.prefix_refl answeredRun)

open Toy in
/-- The fourth validator leaves a complaint unanswered, and escapes at the response deadline by
answering one that was filed too late to count. -/
theorem unanswered_escapes : FromCoordinator libraries (epochGroup ∅).id lateRun ∧
    unansweredIn ((validator 1).tallyAfter (epochGroup ∅).id lateRun) = {4} ∧
    stalledKeyGen 222 ((validator 1).stateAfter lateRun).rollover = none ∧
    ¬ (validator 1).ComplaintsAccounted (epochGroup ∅).id lateRun := by
  refine ⟨⟨lateCalls, by decide +kernel⟩, by decide +kernel, by decide +kernel, fun h => ?_⟩
  have hcounter : (Ceremony.openComplaints (epochGroup ∅).id
      ((validator 1).ceremonyAfter lateRun)).map
        (fun k => (Ceremony.against k 4).unresponded) = some 0 := by decide +kernel
  have hopen : (((validator 1).tallyAfter (epochGroup ∅).id lateRun).complaintsAgainst 4).card = 1 :=
    by decide +kernel
  obtain ⟨k, hk, hzero⟩ := Option.map_eq_some_iff.mp hcounter
  have heq := h.counters k hk 4
  rw [hzero, hopen] at heq
  exact absurd heq (by decide)

/-! ## 6. When a complaint restarts the key generation -/

/-- The group is abandoned, and its key generation started over without the accused. -/
def Abandons (T : Transition E) (s s' : State E) (gid : B256) (accused : Address) : Prop :=
  (Ceremony.openComplaints gid s.rollover.ceremony).isSome ∧
    Ceremony.openComplaints gid s'.rollover.ceremony = none ∧
    ∃ e g d, s.rollover.round = some (e, g) ∧
      s'.rollover = (T.restartKeyGenExcluding s e (g.alsoExclude {accused}) d).1.rollover

theorem restartKeyGenExcluding_rollover (s s' : State E) (e : EpochId) (x : Finset Address)
    (d : Option Nat) : (T.restartKeyGenExcluding s e x d).1.rollover =
      (T.restartKeyGenExcluding s' e x d).1.rollover := by
  unfold restartKeyGenExcluding startKeyGen
  dsimp only
  split
  · split
    · rfl
    · rfl
  · rfl

/-- A complaint restarts when it is counted and reaches the threshold. -/
theorem abandons_iff {s : State E} {log : EventLog Event} {gid : B256} {p a : Address} {b : Bool}
    (hd : log.data = .keyGenComplained gid p a b) :
    T.Abandons s (T.applyTransition s (.event log)).1 gid a ↔
      (Ceremony.counting T log.block gid s.rollover.ceremony).any (fun v =>
        v.2.1.threshold ≤ (Ceremony.against v.2.2.1 a).total + 1) := by
  have happly : (T.applyTransition s (.event log)).1 =
      (T.handleKeyGenComplained s log.block gid p a).1 := by
    simp only [applyTransition, applyEvent, hd]
  rw [happly, complaintPhase_ceremony]
  unfold handleKeyGenComplained
  cases hp : T.complaintPhase log.block gid s.rollover with
  | none =>
    refine iff_of_false (fun h => ?_) (by simp)
    exact absurd h.1 (by rw [h.2.1]; simp)
  | some ph =>
    have hc := complaintPhase_ceremony (T := T) log.block gid s.rollover
    rw [hp, Option.map_some] at hc
    have hopen := Ceremony.counting_open (g := gid) hc
    rw [if_pos rfl] at hopen
    rw [Option.map_some, Option.any_some]
    dsimp only
    rw [decide_eq_true_eq]
    by_cases ht : ph.group.threshold ≤ (raiseComplaint (ph.complaints[a]?.getD default)).total
    · rw [if_pos ht]
      refine iff_of_true ⟨?_, ?_, ph.nextEpoch, ph.group, ph.restartDeadline, ?_, ?_⟩ ht
      · rw [hopen]
        rfl
      · rw [restartKeyGenExcluding_ceremony]
        exact Ceremony.openComplaints_restarted _ _ _ _
      · exact (complaintPhase_round hp).1
      · exact restartKeyGenExcluding_rollover _ _ _ _ _
    · rw [if_neg ht]
      refine iff_of_false (fun h => ?_) ht
      have hnone := h.2.1
      dsimp only at hnone
      rw [withComplaints_ceremony, Ceremony.openComplaints_withComplaints, hopen] at hnone
      exact absurd hnone (by simp)

/-- The coordinator marks a group as compromised at a threshold of open complaints. -/
theorem compromised_iff {L : ContractLibraries} {gid : B256} {ms : List (Msg E)}
    {log : EventLog Event} {p a : Address} {b : Bool} {calls : List (Address × Coordinator.Call)}
    (hlogs : groupEvents gid (ms ++ [.event log]) <+:
      groupLog gid (Coordinator.execAll L Coordinator.initial calls).2)
    (hd : log.data = .keyGenComplained gid p a b) :
    b = true ↔ ((Coordinator.execAll L Coordinator.initial calls).1.groups gid).state.threshold ≤
      ((ledger (groupEvents gid ms)).complaintsAgainst a).card + 1 := by
  have hone : groupLog gid [log.data] = [log.data] := by
    rw [hd]
    simp [groupLog, Event.group?]
  obtain ⟨rest, hrest⟩ := hlogs
  have hrun := Coordinator.groupRun_execAll L gid calls
  rw [← hrest, groupEvents_concat, hone] at hrun
  obtain ⟨g', hleft, hright⟩ := hrun.split
  obtain ⟨g, hg, hst⟩ := hleft.of_concat
  have hslot := Coordinator.slotOk_run hleft
  have hroot := hst.root (Coordinator.slotOk_run hg)
  rw [Coordinator.threshold_run hright hslot hroot.1]
  rw [hd] at hst
  cases hst with
  | complain hs hc =>
    have hacc := (Coordinator.books_run hg).2.accusations a
    have hn := (ParticipantMap.complain_eq_some hc).2.2.2.2.1
    rw [decide_eq_true_eq, hn, hacc]
    split
    · rfl
    · rfl

/-- **When a complaint restarts the key generation.**  The validator restarts at a threshold of
complaints it counted against the accused, answered or not, where the coordinator compromises the
group at a threshold of open ones.  So a validator that counted every complaint restarts whenever
the group is compromised, and then only, unless a complaint against the accused was answered. -/
theorem complaint_restarts (T : Transition E) (L : ContractLibraries)
    (calls : List (Address × Coordinator.Call)) (ms : List (Msg E)) (log : EventLog Event)
    (gid : B256) (p a : Address) (b : Bool) (hd : log.data = .keyGenComplained gid p a b)
    (hlogs : groupEvents gid (ms ++ [.event log]) <+:
      groupLog gid (Coordinator.execAll L Coordinator.initial calls).2)
    (hthreshold : ∀ e g, (T.stateAfter ms).rollover.round = some (e, g) → g.id = gid →
      ((Coordinator.execAll L Coordinator.initial calls).1.groups gid).state.threshold =
        g.threshold) :
    let s := T.stateAfter ms
    let s' := (T.applyTransition s (.event log)).1
    let counted := T.tallyAfter gid ms
    let logged := ledger (groupEvents gid ms)
    (Ceremony.counting T log.block gid s.rollover.ceremony = none → ¬ T.Abandons s s' gid a) ∧
      ∀ e g k d, Ceremony.counting T log.block gid s.rollover.ceremony = some (e, g, k, d) →
        (T.Abandons s s' gid a ↔ g.threshold ≤ (filedAgainst counted a).card + 1) ∧
        (b = true ↔ g.threshold ≤ (logged.complaintsAgainst a).card + 1) ∧
        (filedAgainst logged a ⊆ filedAgainst counted a →
          (b = true → T.Abandons s s' gid a) ∧
          (logged.complaintsAgainst a = filedAgainst logged a →
            (T.Abandons s s' gid a ↔ b = true))) := by
  intro s s' counted logged
  refine ⟨fun hnone => ?_, fun e g k d hc => ?_⟩
  · rw [abandons_iff hd, hnone]
    simp
  · obtain ⟨hround, hgid⟩ := Ceremony.counting_round hc
    rw [ceremony_round] at hround
    have hopen := Ceremony.counting_open (g := gid) hc
    rw [if_pos rfl] at hopen
    have hfrom : FromCoordinator L gid ms := FromCoordinator.init ⟨calls, hlogs⟩
    have habandons : T.Abandons s s' gid a ↔ g.threshold ≤ (filedAgainst counted a).card + 1 := by
      rw [abandons_iff hd, hc, Option.any_some, decide_eq_true_eq, total_eq hfrom hopen a]
    have hcompromised : b = true ↔ g.threshold ≤ (logged.complaintsAgainst a).card + 1 := by
      rw [compromised_iff hlogs hd, hthreshold e g hround hgid]
    refine ⟨habandons, hcompromised, fun hall => ?_⟩
    have hcounted : filedAgainst counted a = filedAgainst logged a :=
      Finset.Subset.antisymm
        (Finset.filter_subset_filter _ (tallyAfter_sub (T := T) gid ms).1) hall
    rw [habandons, hcompromised, hcounted]
    refine ⟨fun h => h.trans (Nat.add_le_add_right (Finset.card_le_card ?_) 1), fun heq => ?_⟩
    · exact Finset.filter_subset_filter _ Finset.sdiff_subset
    · rw [heq]

open Toy in
/-- One complaint is not a threshold. -/
theorem complaint_restarts_first :
    ¬ (validator 1).Abandons ((validator 1).stateAfter (epochRun 1))
        ((validator 1).applyTransition ((validator 1).stateAfter (epochRun 1))
          (.event (complaint 19 1 false))).1 (epochGroup ∅).id 4 := by
  have hround : ((validator 1).stateAfter (epochRun 1)).rollover.round.all (fun r =>
      ((Coordinator.execAll libraries Coordinator.initial answeredCalls).1.groups
        (epochGroup ∅).id).state.threshold = r.2.threshold) = true := by decide +kernel
  have hnone : filedAgainst (ledger (groupEvents (E := crates) (epochGroup ∅).id (epochRun 1))) 4 = ∅ := by
    decide +kernel
  have hmain := complaint_restarts (validator 1) libraries answeredCalls (epochRun 1)
    (complaint 19 1 false) (epochGroup ∅).id 1 4 false rfl (by decide +kernel) (fun e g hr _ => by
      rw [hr, Option.all_some, decide_eq_true_eq] at hround
      exact hround)
  have hcounts : (Ceremony.counting (validator 1) 19 (epochGroup ∅).id
      ((validator 1).stateAfter (epochRun 1)).rollover.ceremony).isSome := by decide +kernel
  obtain ⟨⟨e, g, k, d⟩, hc⟩ := Option.isSome_iff_exists.mp hcounts
  have hiff := ((hmain.2 e g k d hc).2.2 (by rw [hnone]; exact Finset.empty_subset _)).2
    (by decide +kernel)
  rw [hiff]
  decide

open Toy in
/-- A threshold of complaints against the fourth validator, two of them answered: the validator
restarts, and the coordinator does not mark the group as compromised. -/
theorem restarts_uncompromised :
    (complaint 23 3 false).data = .keyGenComplained (epochGroup ∅).id 3 4 false ∧
      groupEvents (epochGroup ∅).id (answeredRun ++ [.event (complaint 23 3 false)]) <+:
        groupLog (epochGroup ∅).id
          (Coordinator.execAll libraries Coordinator.initial answeredCalls).2 ∧
      (validator 1).Abandons ((validator 1).stateAfter answeredRun)
        ((validator 1).applyTransition ((validator 1).stateAfter answeredRun)
          (.event (complaint 23 3 false))).1 (epochGroup ∅).id 4 :=
  ⟨rfl, by decide +kernel, (abandons_iff rfl).mpr (by decide +kernel)⟩

end Transition

end Safenet
