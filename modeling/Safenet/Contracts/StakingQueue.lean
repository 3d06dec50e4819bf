/-
# The withdrawals of a staker

The list in storage stands for a list of withdrawals (`QueueOk`): sorted by time, linked both ways,
its ends stored, and no node in storage but theirs.  A withdrawal goes into the list by
`insertBetween`, whichever call it came by: the search from the tail finds the last one that is not
claimable later (`findPrevious_eq`), and what it then writes is what `insertBetween` writes
(`insertFound_eq`).  The first one leaves it (`removeHead_ok`).
-/
import Safenet.Contracts.Staking

namespace Safenet

open Links

/-- A pending withdrawal. -/
structure Withdrawal where
  id : Nat
  amount : Nat
  claimableAt : Nat
  deriving DecidableEq

/-- The ids of some withdrawals. -/
def ids (l : List Withdrawal) : List Nat := l.map (·.id)

@[simp] theorem ids_append (l m : List Withdrawal) : ids (l ++ m) = ids l ++ ids m := List.map_append

@[simp] theorem ids_cons (w : Withdrawal) (l : List Withdrawal) : ids (w :: l) = w.id :: ids l := rfl

@[simp] theorem ids_nil : ids [] = [] := rfl

/-- What is withdrawn. -/
def amounts (l : List Withdrawal) : Nat := (l.map (·.amount)).sum

namespace Staking

variable {s s' : Staking} {a b : Address} {id x : Nat}

/-! ## 1. Reading after writing -/

/-- A node of a staker. -/
def node (s : Staking) (a : Address) (id : Nat) : WithdrawalNode := s.withdrawalNodes a id

@[simp] theorem node_setNode (f : WithdrawalNode → WithdrawalNode) :
    (s.setNode a id f).node b x = if b = a ∧ x = id then f (s.node a id) else s.node b x := by
  unfold node setNode
  dsimp only
  by_cases hb : b = a
  · subst hb
    by_cases hx : x = id
    · subst hx
      rw [Function.update_self, Function.update_self, if_pos ⟨rfl, rfl⟩]
    · rw [Function.update_self, Function.update_of_ne hx, if_neg fun h => hx h.2]
  · rw [Function.update_of_ne hb, if_neg fun h => hb h.1]

@[simp] theorem node_setQueue (f : WithdrawalQueue → WithdrawalQueue) :
    (s.setQueue a f).node b x = s.node b x := rfl

@[simp] theorem queues_setNode (f : WithdrawalNode → WithdrawalNode) :
    (s.setNode a id f).withdrawalQueues = s.withdrawalQueues := rfl

@[simp] theorem queues_setQueue (f : WithdrawalQueue → WithdrawalQueue) :
    (s.setQueue a f).withdrawalQueues b =
      if b = a then f (s.withdrawalQueues a) else s.withdrawalQueues b := by
  unfold setQueue
  dsimp only
  by_cases hb : b = a
  · subst hb
    rw [Function.update_self, if_pos rfl]
  · rw [Function.update_of_ne hb, if_neg hb]

@[simp] theorem nextWithdrawalId_setNode (f : WithdrawalNode → WithdrawalNode) :
    (s.setNode a id f).nextWithdrawalId = s.nextWithdrawalId := rfl

@[simp] theorem nextWithdrawalId_setQueue (f : WithdrawalQueue → WithdrawalQueue) :
    (s.setQueue a f).nextWithdrawalId = s.nextWithdrawalId := rfl

/-- Writes to two nodes. -/
theorem setNode_comm {y : Nat} (hne : x ≠ y) (f g : WithdrawalNode → WithdrawalNode) :
    (s.setNode a x f).setNode a y g = (s.setNode a y g).setNode a x f := by
  unfold setNode
  dsimp only
  rw [Function.update_self, Function.update_self, Function.update_of_ne hne,
    Function.update_of_ne (Ne.symm hne), Function.update_idem, Function.update_idem,
    Function.update_comm hne]

theorem setNode_setQueue (f : WithdrawalNode → WithdrawalNode) (q : WithdrawalQueue → WithdrawalQueue) :
    (s.setNode a id f).setQueue b q = (s.setQueue b q).setNode a id f := rfl

/-! ## 2. The list -/

/-- The storage of a staker stands for a list of withdrawals. -/
structure QueueOk (s : Staking) (a : Address) (l : List Withdrawal) : Prop where
  links : Segment (fun id => (s.node a id).previous) (fun id => (s.node a id).next) 0 (ids l) 0
  head : (s.withdrawalQueues a).head = (ids l).headD 0
  tail : (s.withdrawalQueues a).tail = (ids l).getLastD 0
  nodup : (ids l).Nodup
  nodes : ∀ w ∈ l, (s.node a w.id).amount = w.amount ∧ (s.node a w.id).claimableAt = w.claimableAt
  valid : ∀ w ∈ l, w.id ≠ 0 ∧ w.id < s.nextWithdrawalId ∧ 0 < w.amount
  sorted : l.Pairwise fun v w => v.claimableAt ≤ w.claimableAt
  empty : ∀ id, id ∉ ids l → s.node a id = .empty

variable {l ys zs : List Withdrawal} {w : Withdrawal}

theorem QueueOk.ne_zero (h : s.QueueOk a l) : ∀ x ∈ ids l, x ≠ 0 := by
  intro x hx
  obtain ⟨w, hw, rfl⟩ := List.mem_map.mp hx
  exact (h.valid w hw).1

/-- The list is empty when its head is zero. -/
theorem QueueOk.head_eq_zero (h : s.QueueOk a l) : (s.withdrawalQueues a).head = 0 ↔ l = [] := by
  rw [h.head]
  constructor
  · intro hzero
    cases l with
    | nil => rfl
    | cons w l => exact absurd hzero (h.ne_zero w.id List.mem_cons_self)
  · rintro rfl
    rfl

/-- It is the list of one staker. -/
theorem QueueOk.congr (h : s.QueueOk a l) (hnode : ∀ id, s'.node a id = s.node a id)
    (hqueue : s'.withdrawalQueues a = s.withdrawalQueues a)
    (hnext : s.nextWithdrawalId ≤ s'.nextWithdrawalId) : s'.QueueOk a l where
  links := h.links.congr (fun x _ => congrArg WithdrawalNode.previous (hnode x))
    fun x _ => congrArg WithdrawalNode.next (hnode x)
  head := hqueue ▸ h.head
  tail := hqueue ▸ h.tail
  nodup := h.nodup
  nodes w hw := by
    rw [hnode]
    exact h.nodes w hw
  valid w hw := by
    obtain ⟨hzero, hlt, hamount⟩ := h.valid w hw
    exact ⟨hzero, hlt.trans_le hnext, hamount⟩
  sorted := h.sorted
  empty id hid := (hnode id).trans (h.empty id hid)

theorem queueOk_nil (hnode : ∀ id, s.node a id = .empty) (hqueue : s.withdrawalQueues a = ⟨0, 0⟩) :
    s.QueueOk a [] where
  links := trivial
  head := congrArg WithdrawalQueue.head hqueue
  tail := congrArg WithdrawalQueue.tail hqueue
  nodup := List.nodup_nil
  nodes _ hw := absurd hw List.not_mem_nil
  valid _ hw := absurd hw List.not_mem_nil
  sorted := .nil
  empty id _ := hnode id

/-- There is gas for all of it. -/
theorem QueueOk.length_le (h : s.QueueOk a l) : l.length ≤ s.nextWithdrawalId := by
  have hsub : (ids l).toFinset ⊆ Finset.range s.nextWithdrawalId := by
    intro x hx
    obtain ⟨w, hw, rfl⟩ := List.mem_map.mp (List.mem_toFinset.mp hx)
    exact Finset.mem_range.mpr (h.valid w hw).2.1
  have hcard := Finset.card_le_card hsub
  rwa [List.toFinset_card_of_nodup h.nodup, Finset.card_range, ids, List.length_map] at hcard

/-- The storage of a staker stands for one list. -/
theorem QueueOk.unique {m : List Withdrawal} (h : s.QueueOk a l) (hm : s.QueueOk a m) : l = m := by
  have hread : ∀ {k : List Withdrawal}, s.QueueOk a k → k = (ids k).map fun id =>
      (⟨id, (s.node a id).amount, (s.node a id).claimableAt⟩ : Withdrawal) := by
    intro k hk
    rw [ids, List.map_map]
    refine (List.map_id k).symm.trans (List.map_congr_left fun w hw => ?_)
    obtain ⟨hamount, htime⟩ := hk.nodes w hw
    rw [Function.comp_apply, hamount, htime]
    rfl
  have hfuel : ∀ {k : List Withdrawal}, s.QueueOk a k → (ids k).length < s.nextWithdrawalId + 1 := by
    intro k hk
    rw [ids, List.length_map]
    exact Nat.lt_succ_of_le hk.length_le
  have htrail := h.links.trail_eq h.ne_zero (hfuel h)
  have htrail' := hm.links.trail_eq hm.ne_zero (hfuel hm)
  rw [← h.head] at htrail
  rw [← hm.head] at htrail'
  rw [hread h, hread hm, Option.some.inj (htrail.symm.trans htrail')]

/-! ## 3. A withdrawal goes in -/

/-- The last of some withdrawals, or zero. -/
def lastId (l : List Withdrawal) : Nat := (ids l).getLastD 0

/-- The first of some withdrawals, or zero. -/
def headId (l : List Withdrawal) : Nat := (ids l).headD 0

theorem lastId_concat : lastId (ys ++ [w]) = w.id := by
  simp [lastId, ids]

theorem lastId_mem (hne : lastId ys ≠ 0) : lastId ys ∈ ids ys := by
  rcases List.eq_nil_or_concat ys with rfl | ⟨ys, w, rfl⟩
  · exact absurd rfl hne
  · rw [List.concat_eq_append, lastId_concat]
    simp

theorem headId_mem (hne : headId zs ≠ 0) : headId zs ∈ ids zs := by
  cases zs with
  | nil => exact absurd rfl hne
  | cons w zs => exact List.mem_cons_self

theorem lastId_ne_zero (hne : ys ≠ []) (hzero : ∀ x ∈ ids ys, x ≠ 0) : lastId ys ≠ 0 := by
  rcases List.eq_nil_or_concat ys with rfl | ⟨ys, w, rfl⟩
  · exact absurd rfl hne
  · rw [List.concat_eq_append, lastId_concat]
    exact hzero w.id (by simp)

theorem headId_ne_zero (hne : zs ≠ []) (hzero : ∀ x ∈ ids zs, x ≠ 0) : headId zs ≠ 0 := by
  cases zs with
  | nil => exact absurd rfl hne
  | cons w zs => exact hzero w.id List.mem_cons_self

variable {amount claimableAt p n : Nat}

/-- A node after a withdrawal went in between two others. -/
theorem node_insertBetween (hp : p ≠ id) (hn : n ≠ id) :
    (s.insertBetween a id amount claimableAt p n).node b x =
      if b = a ∧ x = id then ⟨amount, claimableAt, p, n⟩
      else { s.node b x with
        previous := if b = a ∧ x = n ∧ n ≠ 0 then id else (s.node b x).previous
        next := if b = a ∧ x = p ∧ p ≠ 0 then id else (s.node b x).next } := by
  unfold insertBetween
  dsimp only
  by_cases hb : b = a
  · subst hb
    by_cases hx : x = id
    · subst hx
      split <;> split <;> simp [hp.symm, hn.symm]
    · split <;> split <;> rename_i hp0 hn0 <;> by_cases hxp : x = p <;> by_cases hxn : x = n <;>
        simp_all
  · split <;> split <;> simp [hb]

theorem queue_insertBetween :
    (s.insertBetween a id amount claimableAt p n).withdrawalQueues b =
      if b = a then ⟨if p = 0 then id else (s.withdrawalQueues a).head,
        if n = 0 then id else (s.withdrawalQueues a).tail⟩
      else s.withdrawalQueues b := by
  unfold insertBetween
  dsimp only
  by_cases hb : b = a
  · subst hb
    split <;> split <;> simp_all
  · split <;> split <;> simp [hb]

/-- The place of a withdrawal that goes in: its neighbours, and what is written there. -/
structure Place (s : Staking) (a : Address) (w : Withdrawal) (ys zs : List Withdrawal) : Prop where
  queue : s.QueueOk a (ys ++ zs)
  fresh : w.id ∉ ids (ys ++ zs)
  valid : w.id ≠ 0 ∧ w.id < s.nextWithdrawalId ∧ 0 < w.amount
  before : ∀ y ∈ ys, y.claimableAt ≤ w.claimableAt
  after : ∀ z ∈ zs, w.claimableAt ≤ z.claimableAt

/-- What is stored once it is in its place. -/
def insertAt (s : Staking) (a : Address) (w : Withdrawal) (ys zs : List Withdrawal) : Staking :=
  s.insertBetween a w.id w.amount w.claimableAt (lastId ys) (headId zs)

namespace Place

variable (h : s.Place a w ys zs)
include h

theorem lastId_ne : lastId ys ≠ w.id := by
  intro heq
  have hmem : lastId ys ∈ ids ys := lastId_mem (heq ▸ h.valid.1)
  exact h.fresh (heq ▸ ids_append ys zs ▸ List.mem_append_left _ hmem)

theorem headId_ne : headId zs ≠ w.id := by
  intro heq
  have hmem : headId zs ∈ ids zs := headId_mem (heq ▸ h.valid.1)
  exact h.fresh (heq ▸ ids_append ys zs ▸ List.mem_append_right _ hmem)

/-- The new node. -/
theorem node_self : (s.insertAt a w ys zs).node a w.id =
    ⟨w.amount, w.claimableAt, lastId ys, headId zs⟩ := by
  rw [insertAt, node_insertBetween h.lastId_ne h.headId_ne, if_pos ⟨rfl, rfl⟩]

/-- The others are linked to it, where they are next to it. -/
theorem node_other (hx : x ≠ w.id) : (s.insertAt a w ys zs).node a x =
    { s.node a x with
      previous := if x = headId zs ∧ headId zs ≠ 0 then w.id else (s.node a x).previous
      next := if x = lastId ys ∧ lastId ys ≠ 0 then w.id else (s.node a x).next } := by
  rw [insertAt, node_insertBetween h.lastId_ne h.headId_ne, if_neg fun heq => hx heq.2]
  simp only [true_and]

theorem links : Segment (fun id => ((s.insertAt a w ys zs).node a id).previous)
    (fun id => ((s.insertAt a w ys zs).node a id).next) 0 (ids ys ++ w.id :: ids zs) 0 := by
  have hne : ∀ x ∈ ids ys ++ ids zs, x ≠ w.id :=
    fun x hx heq => h.fresh (heq ▸ ids_append ys zs ▸ hx)
  have hzero : ∀ x ∈ ids ys ++ ids zs, x ≠ 0 :=
    fun x hx => h.queue.ne_zero x (ids_append ys zs ▸ hx)
  refine (ids_append ys zs ▸ h.queue.links).insert (ids_append ys zs ▸ h.queue.nodup) ?_ ?_ ?_ ?_ ?_ ?_
  · rw [h.node_self]
    rfl
  · rw [h.node_self]
    rfl
  · intro x hx
    have hmem : x ∈ ids ys ++ ids zs := List.mem_append_left _ (List.mem_of_mem_getLast? hx)
    have hlast : lastId ys = x := by
      rw [lastId, List.getLastD_eq_getLast?, Option.mem_def.mp hx]
      rfl
    rw [h.node_other (hne x hmem)]
    exact if_pos ⟨hlast.symm, hlast ▸ hzero x hmem⟩
  · intro x hx
    have hmem : x ∈ ids ys ++ ids zs := List.mem_append_right _ (List.mem_of_mem_head? hx)
    have hhead : headId zs = x := by
      rw [headId, List.headD_eq_head?_getD, Option.mem_def.mp hx]
      rfl
    rw [h.node_other (hne x hmem)]
    exact if_pos ⟨hhead.symm, hhead ▸ hzero x hmem⟩
  · intro x hmem hx
    rw [h.node_other (hne x hmem)]
    refine if_neg fun hcase => hx ?_
    obtain ⟨rfl, hne⟩ := hcase
    cases zs with
    | nil => exact absurd rfl hne
    | cons z zs => rfl
  · intro x hmem hx
    rw [h.node_other (hne x hmem)]
    refine if_neg fun hcase => hx ?_
    obtain ⟨rfl, hne⟩ := hcase
    rcases List.eq_nil_or_concat ys with rfl | ⟨ys, y, rfl⟩
    · exact absurd rfl hne
    · simp [lastId, ids]

/-- **A withdrawal goes in.** -/
theorem insert : (s.insertAt a w ys zs).QueueOk a (ys ++ w :: zs) := by
  have hids : ids (ys ++ w :: zs) = ids ys ++ w.id :: ids zs := ids_append ys (w :: zs)
  have hnext : (s.insertAt a w ys zs).nextWithdrawalId = s.nextWithdrawalId := by
    unfold insertAt insertBetween
    dsimp only
    split <;> split <;> rfl
  have hfresh : w.id ∉ ids ys ++ ids zs := ids_append ys zs ▸ h.fresh
  have hmem : ∀ v ∈ ys ++ w :: zs, v = w ∨ v ∈ ys ++ zs ∧ v.id ≠ w.id := by
    intro v hv
    rcases List.mem_append.mp hv with hv | hv
    · have hid : v.id ∈ ids ys := List.mem_map_of_mem hv
      exact .inr ⟨List.mem_append_left _ hv, fun heq => hfresh (List.mem_append_left _ (heq ▸ hid))⟩
    · rcases List.mem_cons.mp hv with rfl | hv
      · exact .inl rfl
      · have hid : v.id ∈ ids zs := List.mem_map_of_mem hv
        exact .inr ⟨List.mem_append_right _ hv, fun heq => hfresh (List.mem_append_right _ (heq ▸ hid))⟩
  constructor
  · rw [hids]
    exact h.links
  · rw [insertAt, queue_insertBetween, if_pos rfl, hids]
    cases ys with
    | nil => rfl
    | cons y ys =>
      have hne := lastId_ne_zero (List.cons_ne_nil y ys) fun x hx =>
        h.queue.ne_zero x (ids_append (y :: ys) zs ▸ List.mem_append_left _ hx)
      dsimp only
      rw [if_neg hne, h.queue.head]
      rfl
  · rw [insertAt, queue_insertBetween, if_pos rfl, hids]
    cases zs with
    | nil => simp [headId]
    | cons z zs =>
      have hne := headId_ne_zero (List.cons_ne_nil z zs) fun x hx =>
        h.queue.ne_zero x (ids_append ys (z :: zs) ▸ List.mem_append_right _ hx)
      dsimp only
      rw [if_neg hne, h.queue.tail, ids_append, getLastD_append, getLastD_append]
      rfl
  · rw [hids]
    have hperm : (w.id :: (ids ys ++ ids zs)).Nodup :=
      List.nodup_cons.mpr ⟨hfresh, ids_append ys zs ▸ h.queue.nodup⟩
    exact (List.perm_middle.symm.nodup_iff).mp hperm
  · intro v hv
    rcases hmem v hv with rfl | ⟨hv, hne⟩
    · rw [h.node_self]
      exact ⟨rfl, rfl⟩
    · rw [h.node_other hne]
      exact h.queue.nodes v hv
  · intro v hv
    rw [hnext]
    rcases hmem v hv with rfl | ⟨hv, -⟩
    · exact h.valid
    · exact h.queue.valid v hv
  · obtain ⟨hys, hzs, hbetween⟩ := List.pairwise_append.mp h.queue.sorted
    refine List.pairwise_append.mpr ⟨hys, List.pairwise_cons.mpr ⟨h.after, hzs⟩, ?_⟩
    intro y hy z hz
    rcases List.mem_cons.mp hz with rfl | hz
    · exact h.before y hy
    · exact hbetween y hy z hz
  · intro x hx
    rw [hids, List.mem_append, List.mem_cons, not_or, not_or] at hx
    obtain ⟨hys, hxw, hzs⟩ := hx
    have hempty := h.queue.empty x (by simp [hys, hzs])
    have hlast : ¬(x = lastId ys ∧ lastId ys ≠ 0) := fun hx => hys (hx.1 ▸ lastId_mem hx.2)
    have hhead : ¬(x = headId zs ∧ headId zs ≠ 0) := fun hx => hzs (hx.1 ▸ headId_mem hx.2)
    rw [h.node_other hxw, if_neg hlast, if_neg hhead, hempty]

end Place

/-- The lists of the others stay. -/
theorem insertBetween_other (hb : b ≠ a) (h : s.QueueOk b l) :
    (s.insertBetween a id amount claimableAt p n).QueueOk b l := by
  refine h.congr (fun x => ?_) (queue_insertBetween.trans (if_neg hb)) ?_
  · unfold insertBetween
    dsimp only
    split <;> split <;> simp [hb]
  · unfold insertBetween
    dsimp only
    split <;> split <;> exact le_rfl

/-! ## 4. Its place is found, or checked -/

variable {t : Nat}

/-- **There is a place** for any time: after all that is not claimable later. -/
theorem exists_place (h : l.Pairwise fun v w => v.claimableAt ≤ w.claimableAt) (t : Nat) :
    ∃ ys zs, l = ys ++ zs ∧ (∀ y ∈ ys, y.claimableAt ≤ t) ∧ ∀ z ∈ zs, t < z.claimableAt := by
  induction l with
  | nil => exact ⟨[], [], rfl, fun y hy => absurd hy List.not_mem_nil, fun z hz => absurd hz List.not_mem_nil⟩
  | cons w l ih =>
    obtain ⟨hfirst, hl⟩ := List.pairwise_cons.mp h
    by_cases hw : w.claimableAt ≤ t
    · obtain ⟨ys, zs, rfl, hys, hzs⟩ := ih hl
      exact ⟨w :: ys, zs, rfl, List.forall_mem_cons.mpr ⟨hw, hys⟩, hzs⟩
    · refine ⟨[], w :: l, rfl, fun y hy => absurd hy List.not_mem_nil, ?_⟩
      have hlt := Nat.lt_of_not_le hw
      exact List.forall_mem_cons.mpr ⟨hlt, fun z hz => hlt.trans_le (hfirst z hz)⟩

/-- What is next to a withdrawal of the list. -/
theorem QueueOk.next_lastId (h : s.QueueOk a (ys ++ w :: zs)) :
    (s.node a w.id).next = headId zs := by
  have hlinks := h.links
  rw [ids_append, segment_append] at hlinks
  exact hlinks.2.2.1

/-- **The search from the tail** stops at the last withdrawal that is not claimable later. -/
theorem findPrevious_eq (h : s.QueueOk a (ys ++ zs)) (hys : ∀ y ∈ ys, y.claimableAt ≤ t)
    (hzs : ∀ z ∈ zs, t < z.claimableAt) : s.findPrevious a t = some (lastId ys) := by
  have htime : ∀ w ∈ ys ++ zs, (s.withdrawalNodes a w.id).claimableAt = w.claimableAt :=
    fun w hw => (h.nodes w hw).2
  unfold findPrevious
  rw [h.tail, ids_append]
  refine (ids_append ys zs ▸ h.links).walk_back ?_ ?_ ?_ ?_
  · exact fun x hx => h.ne_zero x (ids_append ys zs ▸ List.mem_append_right _ hx)
  · intro x hx
    obtain ⟨z, hz, rfl⟩ := List.mem_map.mp hx
    rw [htime z (List.mem_append_right _ hz)]
    exact decide_eq_true (hzs z hz)
  · intro x hx
    obtain ⟨y, hy, rfl⟩ := List.mem_map.mp (List.mem_of_mem_getLast? hx)
    rw [htime y (List.mem_append_left _ hy)]
    exact decide_eq_false (hys y hy).not_gt
  · have := h.length_le
    simp only [ids, List.length_append, List.length_map] at this ⊢
    omega

/-- What is written at the place that was found is what goes in between. -/
theorem Place.insertFound_eq (h : s.Place a w ys zs) (hne : ys ++ zs ≠ []) :
    s.insertFound a w.id w.amount w.claimableAt (lastId ys) = s.insertAt a w ys zs := by
  have hzero : ∀ x ∈ ids ys ++ ids zs, x ≠ 0 :=
    fun x hx => h.queue.ne_zero x (ids_append ys zs ▸ hx)
  have hlast : ys ≠ [] → lastId ys ≠ 0 := fun hys =>
    lastId_ne_zero hys fun x hx => hzero x (List.mem_append_left _ hx)
  have hhead : zs ≠ [] → headId zs ≠ 0 := fun hzs =>
    headId_ne_zero hzs fun x hx => hzero x (List.mem_append_right _ hx)
  have htail : (s.withdrawalQueues a).tail = (ids zs).getLastD (lastId ys) := by
    rw [h.queue.tail, ids_append, getLastD_append]
    rfl
  have hfirst : (s.withdrawalQueues a).head = (ids ys).headD (headId zs) := by
    rw [h.queue.head, ids_append, headD_append]
    rfl
  unfold insertFound insertAt insertBetween
  dsimp only
  rw [htail, hfirst]
  rcases List.eq_nil_or_concat zs with rfl | ⟨zs', z, hzs⟩
  · -- at the tail
    have hys : ys ≠ [] := by simpa using hne
    have hnil : headId [] = 0 := rfl
    simp only [ids_nil, List.getLastD_nil, if_true, hnil, ne_eq, not_true, if_false,
      not_false_eq_true, hlast hys]
    rw [setNode_setQueue, setNode_comm h.lastId_ne]
    rfl
  · have hend : (ids zs).getLastD (lastId ys) = z.id := by
      rw [hzs, List.concat_eq_append, ids_append, getLastD_append]
      rfl
    have hmem : z.id ∈ ids zs := by
      rw [hzs, List.concat_eq_append, ids_append]
      exact List.mem_append_right _ List.mem_cons_self
    have hnezs : zs ≠ [] := by
      rintro rfl
      exact absurd hmem List.not_mem_nil
    rw [hend]
    rcases List.eq_nil_or_concat ys with rfl | ⟨ys', y, hys⟩
    · -- at the head
      have hnil : lastId [] = 0 := rfl
      have hz := hzero z.id (List.mem_append_right _ hmem)
      simp only [hnil, hz.symm, if_false, if_true, ids_nil, List.headD_nil, ne_eq, not_true,
        not_false_eq_true, hhead hnezs]
      rw [setNode_setQueue, setNode_comm h.headId_ne]
      rfl
    · -- in the middle
      have hys : ys = ys' ++ [y] := hys.trans (List.concat_eq_append ..)
      have hneys : ys ≠ [] := by simp [hys]
      have hne : lastId ys ≠ z.id := by
        have hdisjoint := (List.nodup_append.mp (ids_append ys zs ▸ h.queue.nodup)).2.2
        exact hdisjoint _ (lastId_mem (hlast hneys)) _ hmem
      have hnext : (s.withdrawalNodes a (lastId ys)).next = headId zs := by
        have hqueue := h.queue
        rw [hys, List.append_assoc] at hqueue
        rw [hys, lastId_concat]
        exact hqueue.next_lastId
      simp only [hne, if_false, hlast hneys, hnext, ne_eq, not_false_eq_true, if_true, hhead hnezs]
      rw [setNode_comm h.headId_ne, setNode_comm h.lastId_ne]

/-- **The search finds the place**, before what is claimable later. -/
theorem Place.insertSorted_eq (h : s.Place a w ys zs) (hzs : ∀ z ∈ zs, w.claimableAt < z.claimableAt) :
    s.insertSorted a w.id w.amount w.claimableAt = .ok (s.insertAt a w ys zs) := by
  unfold insertSorted
  by_cases hnil : ys ++ zs = []
  · obtain ⟨rfl, rfl⟩ := List.append_eq_nil_iff.mp hnil
    rw [if_pos (h.queue.head_eq_zero.mpr rfl), insertAt, insertBetween]
    have hlast : lastId [] = 0 := rfl
    have hhead : headId [] = 0 := rfl
    simp only [hlast, hhead, ne_eq, not_true, if_false]
    refine congrArg Except.ok ?_
    unfold setQueue
    dsimp only
    rw [Function.update_idem, Function.update_self]
    rfl
  · rw [if_neg fun hzero => hnil (h.queue.head_eq_zero.mp hzero), findPrevious_eq h.queue h.before hzs]
    exact congrArg Except.ok (h.insertFound_eq hnil)

theorem require_eq_ok {p : Prop} [Decidable p] {e : StakingError} {u : Unit} :
    require p e = .ok u ↔ p := by
  unfold require
  split <;> simp_all

/-- What is checked of a position. -/
theorem checkPosition_eq_ok : s.checkPosition a t p = .ok n ↔
    (p ≠ 0 → 0 < (s.node a p).claimableAt ∧ (s.node a p).claimableAt ≤ t) ∧
      n = (if p = 0 then (s.withdrawalQueues a).head else (s.node a p).next) ∧
      (n ≠ 0 → t ≤ (s.node a n).claimableAt) := by
  have hnext : ∀ x, (do
      if x ≠ 0 then require (t ≤ (s.withdrawalNodes a x).claimableAt) .invalidOrdering
      return x : Except StakingError Nat) = .ok n ↔ n = x ∧ (n ≠ 0 → t ≤ (s.node a n).claimableAt) := by
    intro x
    by_cases hx : x = 0
    · simp only [hx, ne_eq, not_true, if_false, Except.pure_eq_ok]
      exact ⟨fun hn => ⟨hn.symm, fun hne => absurd hn.symm hne⟩, fun hn => hn.1.symm⟩
    · simp only [hx, ne_eq, not_false_eq_true, if_true, Except.bind_eq_ok, require_eq_ok,
        Except.pure_eq_ok]
      constructor
      · rintro ⟨-, hle, rfl⟩
        exact ⟨rfl, fun _ => hle⟩
      · rintro ⟨rfl, hle⟩
        exact ⟨(), hle hx, rfl⟩
  unfold checkPosition
  by_cases hp : p = 0
  · simp only [hp, if_true, pure_bind, ne_eq, not_true, false_implies, true_and]
    exact hnext _
  · simp only [hp, if_false, pure_bind, Except.bind_eq_ok, require_eq_ok]
    constructor
    · rintro ⟨-, hpos, -, hle, hn⟩
      exact ⟨fun _ => ⟨hpos, hle⟩, (hnext _).mp hn⟩
    · rintro ⟨hprevious, hn⟩
      exact ⟨(), (hprevious hp).1, (), (hprevious hp).2, (hnext _).mpr hn⟩

/-- **A position that is accepted** is a place between what is claimable before and after. -/
theorem checkPosition_spec (h : s.QueueOk a l) (hp : s.checkPosition a t p = .ok n) :
    ∃ ys zs, l = ys ++ zs ∧ p = lastId ys ∧ n = headId zs ∧ (∀ y ∈ ys, y.claimableAt ≤ t) ∧
      ∀ z ∈ zs, t ≤ z.claimableAt := by
  obtain ⟨hprevious, hn, hnext⟩ := checkPosition_eq_ok.mp hp
  -- what the first of the rest says about the rest
  have hafter : ∀ ys zs, l = ys ++ zs → n = headId zs → ∀ z ∈ zs, t ≤ z.claimableAt := by
    rintro ys zs rfl hn z hz
    cases zs with
    | nil => exact absurd hz List.not_mem_nil
    | cons z' zs =>
      obtain rfl : n = z'.id := hn
      have hmem : z' ∈ ys ++ z' :: zs := List.mem_append_right _ List.mem_cons_self
      have hfirst : t ≤ z'.claimableAt := (hnext (h.valid z' hmem).1).trans_eq (h.nodes z' hmem).2
      rcases List.mem_cons.mp hz with rfl | hz
      · exact hfirst
      · have hsorted := (List.pairwise_append.mp h.sorted).2.1
        exact hfirst.trans ((List.pairwise_cons.mp hsorted).1 z hz)
  by_cases hzero : p = 0
  · subst hzero
    rw [if_pos rfl, h.head] at hn
    exact ⟨[], l, rfl, rfl, hn, fun y hy => absurd hy List.not_mem_nil, hafter [] l rfl hn⟩
  · obtain ⟨hpos, hle⟩ := hprevious hzero
    have hmem : p ∈ ids l := by
      by_contra hnot
      rw [h.empty p hnot] at hpos
      exact absurd hpos (lt_irrefl 0)
    obtain ⟨w, hw, rfl⟩ := List.mem_map.mp hmem
    obtain ⟨ys, zs, rfl⟩ := List.append_of_mem hw
    rw [if_neg hzero, h.next_lastId] at hn
    have happend : ys ++ w :: zs = (ys ++ [w]) ++ zs := by simp
    refine ⟨ys ++ [w], zs, happend, lastId_concat.symm, hn, ?_, hafter _ zs happend hn⟩
    intro y hy
    rw [(h.nodes w hw).2] at hle
    rcases List.mem_append.mp hy with hy | hy
    · exact ((List.pairwise_append.mp h.sorted).2.2 y hy w List.mem_cons_self).trans hle
    · rwa [List.mem_singleton.mp hy]

/-- **A place is accepted**, when the withdrawal before it has a time. -/
theorem checkPosition_place (h : s.QueueOk a (ys ++ zs)) (hpos : ∀ y ∈ ys, 0 < y.claimableAt)
    (hys : ∀ y ∈ ys, y.claimableAt ≤ t) (hzs : ∀ z ∈ zs, t ≤ z.claimableAt) :
    s.checkPosition a t (lastId ys) = .ok (headId zs) := by
  have hlater : headId zs ≠ 0 → t ≤ (s.node a (headId zs)).claimableAt := by
    intro hne
    cases zs with
    | nil => exact absurd rfl hne
    | cons z zs =>
      have htime : (s.node a z.id).claimableAt = z.claimableAt :=
        (h.nodes z (List.mem_append_right _ List.mem_cons_self)).2
      exact (hzs z List.mem_cons_self).trans_eq htime.symm
  refine checkPosition_eq_ok.mpr ⟨?_, ?_, hlater⟩
  · intro hne
    obtain ⟨y, hy, hid⟩ := List.mem_map.mp (lastId_mem hne)
    rw [← hid, (h.nodes y (List.mem_append_left _ hy)).2]
    exact ⟨hpos y hy, hys y hy⟩
  · rcases List.eq_nil_or_concat ys with rfl | ⟨ys, y, rfl⟩
    · exact h.head.symm
    · rw [List.concat_eq_append] at *
      have hne : lastId (ys ++ [y]) ≠ 0 := lastId_concat.trans_ne (h.valid y (by simp)).1
      rw [List.append_assoc] at h
      rw [if_neg hne, lastId_concat]
      exact h.next_lastId.symm

/-! ## 5. The first one goes -/

/-- What is left of a node, once the first one goes. -/
theorem node_removeHead (h : s.QueueOk a (w :: l)) :
    (s.removeHead a).node b x = if b = a ∧ x = w.id then .empty
      else if b = a ∧ x = headId l ∧ headId l ≠ 0 then { s.node b x with previous := 0 }
      else s.node b x := by
  have hhead : (s.withdrawalQueues a).head = w.id := h.head
  have hnext : (s.withdrawalNodes a w.id).next = headId l :=
    QueueOk.next_lastId (show s.QueueOk a ([] ++ w :: l) from h)
  unfold removeHead
  dsimp only
  rw [hhead, hnext]
  by_cases hb : b = a
  · subst hb
    split <;> rename_i hzero
    · simp [hzero]
    · by_cases hx : x = w.id
      · simp [hx]
      · by_cases hl : x = headId l
        · subst hl
          simp [hzero, hx]
        · simp [hx, hl]
  · split <;> simp [hb]

theorem queue_removeHead (h : s.QueueOk a (w :: l)) :
    (s.removeHead a).withdrawalQueues b =
      if b = a then ⟨headId l, if headId l = 0 then 0 else (s.withdrawalQueues a).tail⟩
      else s.withdrawalQueues b := by
  have hhead : (s.withdrawalQueues a).head = w.id := h.head
  have hnext : (s.withdrawalNodes a w.id).next = headId l :=
    QueueOk.next_lastId (show s.QueueOk a ([] ++ w :: l) from h)
  unfold removeHead
  dsimp only
  rw [hhead, hnext]
  by_cases hb : b = a
  · subst hb
    split <;> rename_i hzero <;> simp [hzero]
  · split <;> simp [hb]

theorem nextWithdrawalId_removeHead : (s.removeHead a).nextWithdrawalId = s.nextWithdrawalId := by
  unfold removeHead
  dsimp only
  split <;> rfl

/-- **The first withdrawal goes.** -/
theorem removeHead_ok (h : s.QueueOk a (w :: l)) : (s.removeHead a).QueueOk a l := by
  obtain ⟨hfresh, hnodup⟩ : w.id ∉ ids l ∧ (ids l).Nodup := List.nodup_cons.mp h.nodup
  have hzero : ∀ x ∈ ids l, x ≠ 0 := fun x hx => h.ne_zero x (List.mem_cons_of_mem _ hx)
  have hnode : ∀ x ∈ ids l, (s.removeHead a).node a x =
      if x = headId l ∧ headId l ≠ 0 then { s.node a x with previous := 0 } else s.node a x := by
    intro x hx
    have hne : ¬(a = a ∧ x = w.id) := fun heq => hfresh (heq.2 ▸ hx)
    rw [node_removeHead h, if_neg hne]
    simp only [true_and]
  constructor
  · refine Segment.tail h.links hnodup ?_ ?_ ?_
    · intro x hx
      have hhead : headId l = x := by
        rw [headId, List.headD_eq_head?_getD, Option.mem_def.mp hx]
        rfl
      have hmem := List.mem_of_mem_head? hx
      rw [hnode x hmem, if_pos ⟨hhead.symm, hhead ▸ hzero x hmem⟩]
    · intro x hmem hx
      rw [hnode x hmem, if_neg]
      rintro ⟨rfl, hne⟩
      cases l with
      | nil => exact hne rfl
      | cons v l => exact hx rfl
    · intro x hmem
      rw [hnode x hmem]
      split <;> rfl
  · rw [queue_removeHead h, if_pos rfl]
    rfl
  · rw [queue_removeHead h, if_pos rfl, h.tail]
    cases l with
    | nil => rfl
    | cons v l =>
      rw [if_neg (headId_ne_zero (List.cons_ne_nil v l) hzero)]
      rfl
  · exact hnodup
  · intro v hv
    rw [hnode v.id (List.mem_map_of_mem hv)]
    have hsame := h.nodes v (List.mem_cons_of_mem _ hv)
    split
    · exact hsame
    · exact hsame
  · intro v hv
    rw [nextWithdrawalId_removeHead]
    exact h.valid v (List.mem_cons_of_mem _ hv)
  · exact (List.pairwise_cons.mp h.sorted).2
  · intro x hx
    rw [node_removeHead h]
    by_cases hxw : x = w.id
    · exact if_pos ⟨rfl, hxw⟩
    · have hnew : ¬(a = a ∧ x = w.id) := fun heq => hxw heq.2
      have hhead : ¬(a = a ∧ x = headId l ∧ headId l ≠ 0) :=
        fun heq => hx (heq.2.1 ▸ headId_mem heq.2.2)
      rw [if_neg hnew, if_neg hhead]
      refine h.empty x ?_
      rw [ids_cons, List.mem_cons, not_or]
      exact ⟨hxw, hx⟩

theorem removeHead_other {m : List Withdrawal} (hb : b ≠ a) (h : s.QueueOk a (w :: l))
    (hm : s.QueueOk b m) : (s.removeHead a).QueueOk b m := by
  refine hm.congr (fun x => ?_) ?_ nextWithdrawalId_removeHead.ge
  · rw [node_removeHead h, if_neg fun heq => hb heq.1, if_neg fun heq => hb heq.1]
  · rw [queue_removeHead h, if_neg hb]

/-! ## 6. The list is read -/

/-- **All of the list is read**, from the head on. -/
theorem getPendingWithdrawals_eq (h : s.QueueOk a l) :
    s.getPendingWithdrawals a = some (l.map fun w => (w.amount, w.claimableAt)) := by
  unfold getPendingWithdrawals
  have hlength : (ids l).length < s.nextWithdrawalId + 1 := by
    rw [ids, List.length_map]
    exact Nat.lt_succ_of_le h.length_le
  have htrail : trail (fun id => (s.withdrawalNodes a id).next) (s.nextWithdrawalId + 1)
      ((ids l).headD 0) = some (ids l) := h.links.trail_eq h.ne_zero hlength
  rw [h.head, htrail, Option.map_some, ids, List.map_map]
  refine congrArg some (List.map_congr_left fun w hw => ?_)
  obtain ⟨hamount, htime⟩ := h.nodes w hw
  exact Prod.ext hamount htime

end Staking

end Safenet
