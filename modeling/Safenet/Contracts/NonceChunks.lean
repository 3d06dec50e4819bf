/-
# Nonce chunks, onchain

A participant commits to 1024 nonce pairs at a time, under a Merkle root of which the contract
keeps 246 bits; the ten it drops hold the offset the chunk may be used from.  Two questions
about `FROSTNonceCommitmentSet`:

* WHEN was a nonce committed to?  A chunk is written once, at an index the participant has not
  used, and can be read only from the sequence the group had reached (`preprocess_write_once`).
* WHICH nonce was committed to?  `verify` binds a leaf to its offset only through the leaf's own
  bytes.  Its position in the tree is not checked, so a tree with two leaves for one offset
  opens to both (`accepts_unique_iff`).
-/
import Safenet.Contracts.KeyGeneration

namespace Safenet

open NonceCommitmentSet Coordinator

namespace Coordinator

/-! ## 1. Chunks are written once -/

/-- The chunks assigned to a participant, in order. -/
def assigned (a : Address) (events : List Event) : List Nat :=
  events.filterMap fun
    | .preprocess _ b chunk _ => if b = a then some chunk else none
    | _ => none

/-- A participant's nonce commitments in a group. -/
abbrev chunksOf (g : CoordinatorGroup) (a : Address) : NonceCommitments := g.nonces.commitments a

/-- What a call does to a participant's chunks: nothing, or it writes one it has not used. -/
theorem GroupStep.chunks {L : ContractLibraries} {gid : B256} {g g' : CoordinatorGroup} {e : Event}
    (h : GroupStep L gid g e g') (a : Address) :
    (chunksOf g' a = chunksOf g a ∧ assigned a [e] = []) ∨
      ∃ commitment, let r := assign (chunksOf g a).next g.state.sequence
        e = .preprocess gid a r.1 commitment ∧ chunksOf g' a =
          ⟨r.1 + 1, Function.update (chunksOf g a).chunks r.1 (packRoot commitment r.2)⟩ := by
  cases h with
  | @preprocess sender commitment nonces chunk hs hc =>
    obtain ⟨rfl, rfl⟩ := commit_eq_some hc
    by_cases ha : a = sender
    · subst ha
      exact .inr ⟨commitment, rfl, by simp only [chunksOf, Function.update_self]⟩
    · refine .inl ⟨by simp only [chunksOf, Function.update_of_ne ha], ?_⟩
      simp [assigned, Ne.symm ha]
  | _ => exact .inl ⟨rfl, rfl⟩

/-- The chunks below `next` are final. -/
def Kept (n n' : NonceCommitments) : Prop :=
  n.next ≤ n'.next ∧ ∀ chunk < n.next, n'.chunks chunk = n.chunks chunk

theorem GroupStep.kept {L : ContractLibraries} {gid : B256} {g g' : CoordinatorGroup} {e : Event}
    (h : GroupStep L gid g e g') (a : Address) : Kept (chunksOf g a) (chunksOf g' a) := by
  rcases h.chunks a with ⟨hsame, -⟩ | ⟨commitment, -, hnew⟩
  · rw [hsame]
    exact ⟨le_rfl, fun _ _ => rfl⟩
  · have hle := (assign_spec (chunksOf g a).next g.state.sequence).1
    rw [hnew]
    refine ⟨by dsimp only; omega, fun chunk hlt => ?_⟩
    exact Function.update_of_ne (by omega) ..

/-- A written chunk is never written again, however the run goes on. -/
theorem kept_run {L : ContractLibraries} {gid : B256} {g g' : CoordinatorGroup}
    {events : List Event} (h : Run (GroupStep L gid) g events g') (a : Address) :
    Kept (chunksOf g a) (chunksOf g' a) := by
  refine h.induction (fun _ g' => Kept (chunksOf g a) (chunksOf g' a)) ⟨le_rfl, fun _ _ => rfl⟩ ?_
  rintro past g₁ g₂ e ⟨hnext, hchunks⟩ hst
  obtain ⟨hnext', hchunks'⟩ := hst.kept a
  refine ⟨hnext.trans hnext', fun chunk hlt => ?_⟩
  rw [hchunks' chunk (by omega), hchunks chunk hlt]

/-- The chunks assigned so far grow, and are all below the next one. -/
theorem assigned_run {L : ContractLibraries} {gid : B256} {g : CoordinatorGroup}
    {events : List Event} (h : Run (GroupStep L gid) .empty events g) (a : Address) :
    (assigned a events).Pairwise (· < ·) ∧ ∀ chunk ∈ assigned a events, chunk < (chunksOf g a).next := by
  refine h.induction (fun events g => (assigned a events).Pairwise (· < ·) ∧
    ∀ chunk ∈ assigned a events, chunk < (chunksOf g a).next) ⟨.nil, by simp [assigned]⟩ ?_
  rintro past g g' e ⟨hpw, hlt⟩ hst
  rw [assigned, List.filterMap_append]
  rcases hst.chunks a with ⟨hsame, hnil⟩ | ⟨commitment, rfl, hnew⟩
  · rw [assigned] at hnil
    rw [hnil, List.append_nil, hsame]
    exact ⟨hpw, hlt⟩
  · have hle := (assign_spec (chunksOf g a).next g.state.sequence).1
    have hone : ∀ chunk, List.filterMap (fun
        | Event.preprocess _ b c _ => if b = a then some c else none
        | _ => none) [Event.preprocess gid a chunk commitment] = [chunk] := fun _ => by simp
    rw [hone, hnew]
    refine ⟨List.pairwise_append.mpr ⟨hpw, List.pairwise_singleton _ _, ?_⟩, ?_⟩
    · intro x hx y hy
      rw [List.mem_singleton] at hy
      have := hlt x hx
      omega
    · intro x hx
      rcases List.mem_append.mp hx with hx | hx
      · have := hlt x hx
        dsimp only
        omega
      · rw [List.mem_singleton] at hx
        dsimp only
        omega

/-- A chunk that was never assigned holds nothing. -/
theorem unassigned_run {L : ContractLibraries} {gid : B256} {g : CoordinatorGroup}
    {events : List Event} (h : Run (GroupStep L gid) .empty events g) (a : Address) :
    ∀ chunk, chunk ∉ assigned a events → (chunksOf g a).chunks chunk = 0 := by
  refine h.induction (fun events g => ∀ chunk, chunk ∉ assigned a events →
    (chunksOf g a).chunks chunk = 0) (fun _ _ => rfl) ?_
  intro past g g' e ih hst chunk hnew
  rw [assigned, List.filterMap_append, List.mem_append, not_or] at hnew
  rcases hst.chunks a with ⟨hsame, -⟩ | ⟨commitment, rfl, hwrite⟩
  · rw [hsame]
    exact ih chunk hnew.1
  · have hne : chunk ≠ (assign (chunksOf g a).next g.state.sequence).1 := by
      rintro rfl
      exact hnew.2 (by simp)
    rw [hwrite]
    exact (Function.update_of_ne hne ..).trans (ih chunk hnew.1)

theorem preprocess_eq_some {C C' : Coordinator} {a : Address} {gid commitment : B256}
    {events : List Event} (h : preprocess C a gid commitment = some (C', events)) :
    let r := assign (chunksOf (C.groups gid) a).next (C.groups gid).state.sequence
    events = [.preprocess gid a r.1 commitment] ∧ chunksOf (C'.groups gid) a =
      ⟨r.1 + 1, Function.update (chunksOf (C.groups gid) a).chunks r.1 (packRoot commitment r.2)⟩ := by
  unfold preprocess at h
  dsimp only at h
  split at h
  · simp only [bind, Option.bind_eq_some_iff, pure, Option.some.injEq, Prod.mk.injEq] at h
    obtain ⟨⟨nonces, chunk⟩, hc, rfl, rfl⟩ := h
    obtain ⟨rfl, rfl⟩ := commit_eq_some hc
    refine ⟨rfl, ?_⟩
    rw [put_groups_self]
    simp only [chunksOf, Function.update_self]
  · exact absurd h (by simp)

/-- What an accepted nonce says about the chunk it was accepted from. -/
theorem verify_eq_true {L : ContractLibraries} {m : NonceCommitmentSet} {a : Address}
    {nonces : SignNonces} {seq : Nat} {proof : List B256} :
    m.verify L a nonces seq proof = true ↔
      Secp256k1.satisfiesCurveEquation nonces.d = true ∧
      Secp256k1.satisfiesCurveEquation nonces.e = true ∧
      (unpackRoot ((m.commitments a).chunks (sequence seq).1)).2 ≤ (sequence seq).2 ∧
      proof.length = chunkBits ∧
      maskRoot (L.processProof proof (NonceCommitmentSet.leaf L (sequence seq).2 nonces)) =
        (unpackRoot ((m.commitments a).chunks (sequence seq).1)).1 := by
  simp only [NonceCommitmentSet.verify, Bool.and_eq_true, decide_eq_true_eq, and_assoc]

/-- A sequence is its chunk and its offset. -/
theorem sequence_eq (seq : Nat) :
    (sequence seq).1 * 2 ^ chunkBits + (sequence seq).2 = seq := by
  have hdm := Nat.div_add_mod seq (2 ^ chunkBits)
  rw [Nat.mul_comm] at hdm
  exact hdm

variable (L : ContractLibraries)

/-- **Chunks are write-once.**  A commitment accepted after any calls goes to a chunk that was
never assigned to the participant, at or above its next index, which moves past it.  Whatever is
called afterwards the chunk keeps it, and a nonce is accepted from it only for a sequence the
group had not reached when the commitment was made.  A sequence is read at its own chunk and
offset, and nothing is accepted from a chunk without a commitment unless its masked digest is
zero. -/
theorem preprocess_write_once (calls more : List (Address × Call)) (gid commitment : B256)
    (a : Address) (C' : Coordinator) (events : List Event)
    (h : exec L (execAll L initial calls).1 a (.preprocess gid commitment) = some (C', events)) :
    let g := (execAll L initial calls).1.groups gid
    let g'' := (execAll L C' more).1.groups gid
    let past := assigned a (groupLog gid (execAll L initial calls).2)
    (∃ chunk offset, events = [.preprocess gid a chunk commitment] ∧ chunk ∉ past ∧
      (chunksOf g a).next ≤ chunk ∧ (chunksOf (C'.groups gid) a).next = chunk + 1 ∧
      chunk + 1 ≤ (chunksOf g'' a).next ∧
      (chunksOf g'' a).chunks chunk = packRoot commitment offset ∧
      ((sequence g.state.sequence).1 = chunk → offset = (sequence g.state.sequence).2) ∧
      ∀ nonces seq proof, (sequence seq).1 = chunk → g''.nonces.verify L a nonces seq proof = true →
        offset ≤ (sequence seq).2 ∧ g.state.sequence ≤ seq) ∧
    past.Pairwise (· < ·) ∧
    (∀ seq seq', sequence seq = sequence seq' → seq = seq') ∧
    ∀ nonces seq proof, (sequence seq).1 ∉ past → g.nonces.verify L a nonces seq proof = true →
      maskRoot (L.processProof proof (NonceCommitmentSet.leaf L (sequence seq).2 nonces)) = 0 := by
  intro g g'' past
  have hrun := groupRun_execAll L gid calls
  obtain ⟨hpw, hlt⟩ : past.Pairwise (· < ·) ∧ ∀ chunk ∈ past, chunk < (chunksOf g a).next :=
    assigned_run hrun a
  obtain ⟨hevents, hchunks⟩ : events = [.preprocess gid a
      (assign (chunksOf g a).next g.state.sequence).1 commitment] ∧ chunksOf (C'.groups gid) a =
      ⟨(assign (chunksOf g a).next g.state.sequence).1 + 1, Function.update (chunksOf g a).chunks
        (assign (chunksOf g a).next g.state.sequence).1
        (packRoot commitment (assign (chunksOf g a).next g.state.sequence).2)⟩ :=
    preprocess_eq_some h
  obtain ⟨hle, hreach, hstart, hoff⟩ := assign_spec (chunksOf g a).next g.state.sequence
  obtain ⟨ls, hrun', -⟩ := execAll_run L more C'
  obtain ⟨hnext, hkept⟩ := kept_run (groupRun_of_run gid hrun') a
  rw [hchunks] at hnext hkept
  have hentry : (chunksOf g'' a).chunks (assign (chunksOf g a).next g.state.sequence).1 =
      packRoot commitment (assign (chunksOf g a).next g.state.sequence).2 := by
    rw [hkept _ (Nat.lt_succ_self _)]
    exact Function.update_self ..
  refine ⟨⟨_, _, hevents, fun hm => ?_, hle, ?_, hnext, hentry, fun hin => ?_, ?_⟩, hpw, ?_, ?_⟩
  · have hbelow := hlt _ hm
    omega
  · rw [hchunks]
  · rcases hstart with hzero | hq
    · -- A fresh chunk that the sequence lies in is one the sequence has just entered.
      have hseq := sequence_eq g.state.sequence
      rw [hin] at hseq
      omega
    · have hseq := sequence_eq g.state.sequence
      rw [hin] at hseq
      omega
  · intro nonces seq proof hseq hv
    obtain ⟨-, -, hge, -⟩ := verify_eq_true.mp hv
    rw [hseq, hentry, unpackRoot_packRoot _ hoff] at hge
    refine ⟨hge, ?_⟩
    have heq := sequence_eq seq
    rw [hseq] at heq
    dsimp only at hge
    omega
  · intro seq seq' heq
    rw [← sequence_eq seq, heq, sequence_eq]
  · intro nonces seq proof hnot hv
    obtain ⟨-, -, -, -, hroot⟩ := verify_eq_true.mp hv
    have hzero := unassigned_run hrun a _ hnot
    rw [hroot, show (g.nonces.commitments a).chunks (sequence seq).1 = 0 from hzero]
    rfl

open Toy in
/-- One signature was opened, so the chunk starts at offset one, and reveals for that signature are
refused. -/
theorem preprocess_write_once_started : ∃ C' events, exec libraries
      (execAll libraries initial (genesisCalls ++ [(2, .sign group.id 7)])).1 1
      (.preprocess group.id nonceRoot) = some (C', events) ∧
    events = [.preprocess group.id 1 0 nonceRoot] ∧ ∀ nonces proof,
      ((execAll libraries C' [(2, .sign group.id 8)]).1.groups group.id).nonces.verify libraries 1
        nonces 0 proof = false := by
  obtain ⟨⟨C', events⟩, hx⟩ := Option.isSome_iff_exists.mp
    (show (exec libraries (execAll libraries initial (genesisCalls ++ [(2, .sign group.id 7)])).1 1
      (.preprocess group.id nonceRoot)).isSome = true by decide +kernel)
  obtain ⟨⟨chunk, offset, hevents, -, -, -, -, -, -, hverify⟩, -⟩ :=
    preprocess_write_once libraries _ [(2, .sign group.id 8)] _ _ _ C' events hx
  have hlog : (exec libraries (execAll libraries initial (genesisCalls ++ [(2, .sign group.id 7)])).1
      1 (.preprocess group.id nonceRoot)).map (·.2) = some [.preprocess group.id 1 0 nonceRoot] := by
    decide +kernel
  rw [hx, Option.map_some, Option.some.injEq] at hlog
  replace hlog : events = [.preprocess group.id 1 0 nonceRoot] := hlog
  rw [hlog, List.cons.injEq, Event.preprocess.injEq] at hevents
  refine ⟨C', events, hx, hlog, fun nonces proof => Bool.eq_false_iff.mpr fun hv => ?_⟩
  have hle := (hverify nonces 0 proof hevents.1.2.2.1 hv).2
  exact absurd hle (by decide +kernel)

end Coordinator

/-! ## 2. What a commitment opens to -/

namespace NonceCommitmentSet

variable (L : ContractLibraries)

/-- What is hashed for a leaf. -/
def leafBytes (offset : Nat) (nonces : SignNonces) : Bytes :=
  beBytes 32 offset ++ (B256.toBytes nonces.d.x ++ B256.toBytes nonces.d.y) ++
    (B256.toBytes nonces.e.x ++ B256.toBytes nonces.e.y)

/-- An attempt to reveal a nonce pair. -/
structure Opening where
  nonces : SignNonces
  proof : List B256

/-- Everything hashed when an opening is verified. -/
def Opening.hashed (o : Opening) (offset : Nat) : List Bytes :=
  leafBytes offset o.nonces :: (HashTree.climbed (pairHash L.keccak256)
    (leaf L offset o.nonces) o.proof).map pairBytes

/-- The opening is accepted for a sequence. -/
def Opening.Accepted (o : Opening) (self : NonceCommitmentSet) (a : Address) (seq : Nat) : Prop :=
  self.verify L a o.nonces seq o.proof = true

/-- Everything hashed when the ten upper levels of a tree are built. -/
def treeHashed (t : HashTree B256) : List Bytes :=
  (t.pairs (pairHash L.keccak256) chunkBits).map pairBytes

/-- `t` is the tree behind a stored root: its own root agrees in the bits that are kept, and it
is built as far as anybody can. -/
structure Committed (t : HashTree B256) (commitment : B256) : Prop where
  root : maskRoot (t.root (pairHash L.keccak256)) = commitment
  full : t.Full (pairHash L.keccak256) chunkBits
  top : ∀ w, t = .word w → ∀ p, maskRoot (pairHash L.keccak256 p) ≠ commitment

/-- Whatever a participant submits as its commitment, there is a tree behind it. -/
theorem exists_committed (commitment : B256) : ∃ t, Committed L t (maskRoot commitment) := by
  by_cases hp : ∃ p, maskRoot (pairHash L.keccak256 p) = maskRoot commitment
  · obtain ⟨p, hp⟩ := hp
    induction p with
    | h a b =>
      obtain ⟨l, rfl, hl⟩ := HashTree.exists_full (pairHash L.keccak256) 9 a
      obtain ⟨r, rfl, hr⟩ := HashTree.exists_full (pairHash L.keccak256) 9 b
      exact ⟨.node l r, hp, ⟨hl, hr⟩, fun w h => absurd h (by simp)⟩
  · exact ⟨.word commitment, rfl, fun p h => hp ⟨p, by rw [h]⟩, fun _ _ p h => hp ⟨p, h⟩⟩

theorem processProof_eq_climb {L : ContractLibraries} (hL : L.SortedPairs) (proof : List B256)
    (w : B256) : L.processProof proof w = HashTree.climb (pairHash L.keccak256) w proof := by
  rw [hL.processProof_eq, HashTree.climb]
  congr 1
  funext a b
  exact hashPair_eq _ a b

/-- **When a chunk opens to one nonce pair only.**  Let `S` hold the byte strings that are hashed,
and let the 246 bits that are kept of Keccak-256 be collision-free on it.  At most one pair is
accepted for a sequence exactly when the tree behind the chunk's root has leaves for at most one
pair at that sequence's offset. -/
theorem accepts_unique_iff (hL : L.SortedPairs) (self : NonceCommitmentSet) (a : Address)
    (seq : Nat) (t : HashTree B256) (S : Set Bytes)
    (hfree : S.InjOn fun b => maskRoot (L.keccak256 b)) (htree : ∀ b ∈ treeHashed L t, b ∈ S)
    (ht : Committed L t (unpackRoot ((self.commitments a).chunks (sequence seq).1)).1)
    (hstart : (unpackRoot ((self.commitments a).chunks (sequence seq).1)).2 ≤ (sequence seq).2) :
    (∀ o o' : Opening, (∀ b ∈ o.hashed L (sequence seq).2, b ∈ S) →
      (∀ b ∈ o'.hashed L (sequence seq).2, b ∈ S) → o.Accepted L self a seq →
      o'.Accepted L self a seq → o.nonces = o'.nonces) ↔
    ∀ n n' : SignNonces, (∀ m ∈ [n, n'], Secp256k1.satisfiesCurveEquation m.d ∧
        Secp256k1.satisfiesCurveEquation m.e ∧ leafBytes (sequence seq).2 m ∈ S ∧
        leaf L (sequence seq).2 m ∈ t.wordsAt (pairHash L.keccak256) chunkBits) → n = n' := by
  -- The pairs that are hashed, and the hash of a pair on them.
  have hpairs : ∀ p q : Sym2 B256, pairBytes p ∈ S → pairBytes q ∈ S →
      maskRoot (pairHash L.keccak256 p) = maskRoot (pairHash L.keccak256 q) → p = q :=
    fun p q hp hq h => pairBytes_injective (hfree hp hq h)
  have hinj : Set.InjOn (pairHash L.keccak256) {p | pairBytes p ∈ S} :=
    fun p hp q hq h => hpairs p q hp hq (congrArg maskRoot h)
  have htree' : ∀ p ∈ t.pairs (pairHash L.keccak256) chunkBits, pairBytes p ∈ S :=
    fun p hp => htree _ (List.mem_map_of_mem hp)
  constructor
  · intro hunique n n' hmem
    have hopen : ∀ m ∈ [n, n'], ∃ o : Opening, o.nonces = m ∧
        (∀ b ∈ o.hashed L (sequence seq).2, b ∈ S) ∧ o.Accepted L self a seq := by
      intro m hm
      obtain ⟨hd, he, hS, hleaf⟩ := hmem m hm
      obtain ⟨proof, hlen, hroot, hclimbed⟩ := HashTree.exists_climb (pairHash L.keccak256) hleaf
      refine ⟨⟨m, proof⟩, rfl, fun b hb => ?_, ?_⟩
      · rcases List.mem_cons.mp hb with rfl | hb
        · exact hS
        · obtain ⟨p, hp, rfl⟩ := List.mem_map.mp hb
          exact htree' p (hclimbed p hp)
      · refine Coordinator.verify_eq_true.mpr ⟨hd, he, hstart, hlen, ?_⟩
        rw [processProof_eq_climb hL, hroot, ht.root]
    obtain ⟨o, rfl, hoS, ho⟩ := hopen n (by simp)
    obtain ⟨o', rfl, hoS', ho'⟩ := hopen n' (by simp)
    exact hunique o o' hoS hoS' ho ho'
  · intro hleaves o o' hoS hoS' ho ho'
    have hword : ∀ x : Opening, (∀ b ∈ x.hashed L (sequence seq).2, b ∈ S) →
        x.Accepted L self a seq → Secp256k1.satisfiesCurveEquation x.nonces.d ∧
          Secp256k1.satisfiesCurveEquation x.nonces.e ∧ leafBytes (sequence seq).2 x.nonces ∈ S ∧
          leaf L (sequence seq).2 x.nonces ∈ t.wordsAt (pairHash L.keccak256) chunkBits := by
      intro x hxS hx
      obtain ⟨hd, he, -, hlen, hroot⟩ := Coordinator.verify_eq_true.mp hx
      have hclimb : ∀ p ∈ HashTree.climbed (pairHash L.keccak256)
          (leaf L (sequence seq).2 x.nonces) x.proof, pairBytes p ∈ S :=
        fun p hp => hxS _ (List.mem_cons_of_mem _ (List.mem_map_of_mem hp))
      rw [processProof_eq_climb hL, ← ht.root] at hroot
      refine ⟨hd, he, hxS _ List.mem_cons_self, HashTree.mem_wordsAt_of_climb _ hinj ht.full htree'
        hclimb hlen ?_⟩
      -- The two roots agree in the bits that are kept, so they hash the same pair.
      obtain ⟨front, y, hfront⟩ : ∃ front y, x.proof = front ++ [y] := by
        rcases List.eq_nil_or_concat x.proof with hnil | ⟨front, y, h⟩
        · rw [hnil] at hlen
          exact absurd hlen (by decide)
        · exact ⟨front, y, by simpa using h⟩
      rw [hfront, HashTree.climb_concat] at hroot ⊢
      rw [hfront, HashTree.climbed_concat] at hclimb
      cases hcase : t with
      | word w => exact absurd (hroot.trans ht.root) (ht.top w hcase _)
      | node l r =>
        rw [hcase] at hroot htree'
        exact congrArg _ (hpairs _ _ (hclimb _ (by simp))
          (htree' s(l.root (pairHash L.keccak256), r.root (pairHash L.keccak256))
            (by simp [chunkBits, HashTree.pairs])) hroot)
    refine hleaves o.nonces o'.nonces fun m hm => ?_
    rcases List.mem_pair.mp hm with rfl | rfl
    · exact hword o hoS ho
    · exact hword o' hoS' ho'

open Toy in
/-- A tree with the leaf of one nonce pair in its corner, and nothing else in it. -/
theorem accepts_unique_iff_corner :
    let t := cornerTree (leaf libraries 0 signNonces) 0
    let S : Set Bytes := {b | b ∈ leafBytes 0 signNonces :: treeHashed libraries t}
    let self : NonceCommitmentSet := ⟨fun _ => ⟨1, fun _ =>
      packRoot (t.root (pairHash libraries.keccak256)) 0⟩⟩
    S.InjOn (fun b => maskRoot (libraries.keccak256 b)) ∧
    ((∀ o o' : Opening, (∀ b ∈ o.hashed libraries 0, b ∈ S) →
      (∀ b ∈ o'.hashed libraries 0, b ∈ S) → o.Accepted libraries self 1 0 →
      o'.Accepted libraries self 1 0 → o.nonces = o'.nonces) ↔
    ∀ n n' : SignNonces, (∀ m ∈ [n, n'], Secp256k1.satisfiesCurveEquation m.d ∧
        Secp256k1.satisfiesCurveEquation m.e ∧ leafBytes 0 m ∈ S ∧
        leaf libraries 0 m ∈ t.wordsAt (pairHash libraries.keccak256) chunkBits) → n = n') := by
  intro t S self
  have hfree : S.InjOn fun b => maskRoot (libraries.keccak256 b) := by
    have hnd : ((leafBytes 0 signNonces :: treeHashed libraries t).map
        fun b => maskRoot (libraries.keccak256 b)).Nodup := by decide +kernel
    exact fun x hx y hy h => List.inj_on_of_nodup_map hnd hx hy h
  have hword : ∀ p, pairHash libraries.keccak256 p ≠ 0 := fun p => keccak256_ne_zero _
  have hunpack : unpackRoot ((self.commitments 1).chunks (sequence 0).1) =
      (maskRoot (t.root (pairHash libraries.keccak256)), 0) :=
    unpackRoot_packRoot _ (by decide)
  refine ⟨hfree, accepts_unique_iff libraries libraries_sortedPairs self 1 0 t S hfree (fun b hb => List.mem_cons_of_mem _ hb) ?_ ?_⟩
  · rw [hunpack]
    exact ⟨rfl, cornerTree_full hword _ _, fun w h => absurd h (by simp [t, cornerTree, corner])⟩
  · rw [hunpack]
    exact Nat.zero_le _

open Toy in
/-- A participant commits to a tree with two leaves for offset zero, and the contract accepts
either pair for the first signature. -/
theorem two_pairs_accepted :
    let C := (execAll libraries initial (genesisCalls ++ [(1, .preprocess group.id twoLeaves),
      (2, .sign group.id 7)])).1
    let sid := signatureId group.id 0
    let o : Opening := ⟨signNonces, leaf libraries 0 otherNonces :: List.replicate 9 0⟩
    let o' : Opening := ⟨otherNonces, leaf libraries 0 signNonces :: List.replicate 9 0⟩
    o.nonces ≠ o'.nonces ∧
      (exec libraries C 1 (.signRevealNonces sid o.nonces o.proof)).isSome ∧
      (exec libraries C 1 (.signRevealNonces sid o'.nonces o'.proof)).isSome ∧
      ((o.hashed libraries 0 ++ o'.hashed libraries 0).dedup.map
        fun b => maskRoot (libraries.keccak256 b)).Nodup := by
  decide +kernel

end NonceCommitmentSet

end Safenet
