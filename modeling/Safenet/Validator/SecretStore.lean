/-
# The secret store

`secrets/store.rs`: the SQLite tables of locally sampled secrets.  A table is its list of rows,
a statement is one function of the store, and a statement that violates a key returns `none`.
The store is outside the snapshotted state: NOTHING below is ever undone by a reorg.

What the nonce accounting uses is `nonceRows`, the number of rows under one `(root, offset)`:
`takeNonce` hands out a nonce only by removing its row (`takeNonce_rows`), and the only statement
that adds rows is `registerNoncesChunk`, one per offset of a chunk whose root is not in the table
(`registerNoncesChunk_rows`).  What the key-generation secrets rest on is `storeKeygenSecrets`,
which never overwrites, and `retainKeygenSecrets`, which is the only statement that deletes.
-/
import Safenet.Frost

namespace Safenet

open Frost

/-! ## 1. The tables -/

/-- A row of `keygen_secrets`; the key is `(group_id, address)`. -/
structure KeygenRow (E : Crates) where
  groupId : B256
  address : Address
  secrets : Secrets E

/-- A row of `nonces_chunks`; the key is `root`. -/
structure ChunkRow where
  root : B256
  groupId : B256
  address : Address
  deriving DecidableEq

/-- A row of `nonces`; the key is `(root, offs)`. -/
structure NonceRow (E : Crates) where
  root : B256
  offs : Nat
  nonce : Nonces E

/-- The three tables. -/
structure SecretStore (E : Crates) where
  keygenSecrets : List (KeygenRow E)
  noncesChunks : List ChunkRow
  nonces : List (NonceRow E)

namespace SecretStore

variable {E : Crates}

/-- Freshly created tables. -/
def empty : SecretStore E := ⟨[], [], []⟩

/-- Whether a row is a group's for an address. -/
def isKeygenRow (group : B256) (me : Address) (row : KeygenRow E) : Bool :=
  row.groupId = group && row.address = me

/-- Whether a row is at a root and an offset. -/
def isNonceRow (root : B256) (offset : Nat) (row : NonceRow E) : Bool :=
  row.root = root && row.offs = offset

/-! ## 2. The statements -/

/-- Persists the secrets of a group unless there are some, and returns the stored ones. -/
def storeKeygenSecrets (store : SecretStore E) (group : B256) (me : Address)
    (secrets : Secrets E) : SecretStore E × Secrets E :=
  match store.keygenSecrets.find? (isKeygenRow group me) with
  | some row => (store, row.secrets)
  | none =>
    ({ store with keygenSecrets := store.keygenSecrets ++ [⟨group, me, secrets⟩] }, secrets)

/-- Deletes the secrets of every other group. -/
def retainKeygenSecrets (store : SecretStore E) (groups : List B256) : SecretStore E :=
  { store with keygenSecrets := store.keygenSecrets.filter fun row => row.groupId ∈ groups }

/-- The rows of a chunk's nonces. -/
def chunkRows (chunk : NonceChunk E) : List (NonceRow E) :=
  chunk.nonces.zipIdx.map fun (nonce, offs) => ⟨chunk.commitment, offs, nonce⟩

/-- Persists a chunk under its root, in one transaction. -/
def registerNoncesChunk (store : SecretStore E) (group : B256) (me : Address)
    (chunk : NonceChunk E) : Option (SecretStore E × B256) :=
  let root := chunk.commitment
  if store.noncesChunks.any (fun row => row.root = root) ||
      store.nonces.any (fun row => row.root = root && row.offs < chunk.nonces.length) then none
  else some
    ({ store with
        noncesChunks := store.noncesChunks ++ [⟨root, group, me⟩]
        nonces := store.nonces ++ chunkRows chunk }, root)

/-- The public reveal of a nonce, which stays. -/
def noncesReveal (store : SecretStore E) (root : B256) (offset : Nat) :
    Option (SignNonces × List B256) :=
  (store.nonces.find? (isNonceRow root offset)).map fun row => row.nonce.reveal E

/-- Removes and returns a nonce. -/
def takeNonce (store : SecretStore E) (root : B256) (offset : Nat) :
    SecretStore E × Option (Nonces E) :=
  match store.nonces.find? (isNonceRow root offset) with
  | some row =>
    ({ store with nonces := store.nonces.filter fun row => !isNonceRow root offset row },
      some row.nonce)
  | none => (store, none)

/-- Deletes the nonce trees of every other group, cascading to their nonces. -/
def retainNonces (store : SecretStore E) (groups : List B256) : SecretStore E :=
  let deleted := store.noncesChunks.filter fun row => row.groupId ∉ groups
  { store with
      noncesChunks := store.noncesChunks.filter fun row => row.groupId ∈ groups
      nonces := store.nonces.filter fun row => !deleted.any fun chunk => chunk.root = row.root }

/-! ## 3. Nonce rows -/

/-- How many rows are at a root and an offset. -/
def nonceRows (store : SecretStore E) (root : B256) (offset : Nat) : Nat :=
  store.nonces.countP (isNonceRow root offset)

/-- A chunk has at most one row for an offset, under its own root. -/
theorem countP_chunkRows (chunk : NonceChunk E) (root : B256) (offset : Nat) :
    (chunkRows chunk).countP (isNonceRow root offset) ≤
      if chunk.commitment = root then 1 else 0 := by
  have hoffsets : ∀ (l : List (Nonces E)) (k : Nat),
      (l.zipIdx k).countP (fun e => decide (e.2 = offset)) ≤ 1 := by
    intro l k
    have hmap : ((l.zipIdx k).map Prod.snd).Nodup := by
      rw [List.zipIdx_map_snd]
      exact List.nodup_range'
    have hcount := List.nodup_iff_count_le_one.mp hmap offset
    rw [List.count, List.countP_map] at hcount
    refine le_trans (le_of_eq ?_) hcount
    congr 1
  rw [chunkRows, List.countP_map]
  split
  · rename_i hroot
    refine le_trans (List.countP_mono_left ?_) (hoffsets chunk.nonces 0)
    intro e _ he
    simp only [Function.comp, isNonceRow, hroot, decide_true, Bool.true_and] at he
    exact he
  · rename_i hroot
    rw [Nat.le_zero, List.countP_eq_zero]
    intro e _
    simp [isNonceRow, hroot]

theorem registerNoncesChunk_rows {store store' : SecretStore E} {group root : B256} {me : Address}
    {chunk : NonceChunk E} (h : store.registerNoncesChunk group me chunk = some (store', root))
    (r : B256) (offset : Nat) :
    root = chunk.commitment ∧ store'.nonceRows r offset ≤
      store.nonceRows r offset + if chunk.commitment = r then 1 else 0 := by
  simp only [registerNoncesChunk] at h
  split at h
  · exact absurd h (by simp)
  · simp only [Option.some.injEq, Prod.mk.injEq] at h
    obtain ⟨rfl, rfl⟩ := h
    refine ⟨rfl, ?_⟩
    simp only [nonceRows, List.countP_append]
    exact Nat.add_le_add_left (countP_chunkRows chunk r offset) _

/-- A nonce is handed out only by removing its row. -/
theorem takeNonce_rows (store : SecretStore E) (root : B256) (offset : Nat) :
    (∀ r o, (store.takeNonce root offset).1.nonceRows r o ≤ store.nonceRows r o) ∧
      ((store.takeNonce root offset).2.isSome = true →
        (store.takeNonce root offset).1.nonceRows root offset + 1 ≤ store.nonceRows root offset) := by
  unfold takeNonce
  split
  · rename_i row hrow
    refine ⟨fun r o => ?_, fun _ => ?_⟩
    · exact List.filter_sublist.countP_le
    · have hzero : (store.nonces.filter fun row => !isNonceRow root offset row).countP
          (isNonceRow root offset) = 0 := by
        rw [List.countP_eq_zero]
        intro row' hmem
        have := (List.mem_filter.mp hmem).2
        simpa using this
      simp only [nonceRows, hzero, Nat.zero_add]
      exact List.countP_pos_iff.mpr ⟨row, List.mem_of_find?_eq_some hrow, List.find?_some hrow⟩
  · exact ⟨fun r o => le_rfl, fun h => absurd h (by simp)⟩

theorem retainNonces_rows (store : SecretStore E) (groups : List B256) (r : B256) (o : Nat) :
    (store.retainNonces groups).nonceRows r o ≤ store.nonceRows r o :=
  List.filter_sublist.countP_le

theorem storeKeygenSecrets_nonces (store : SecretStore E) (group : B256) (me : Address)
    (secrets : Secrets E) : (store.storeKeygenSecrets group me secrets).1.nonces = store.nonces := by
  unfold storeKeygenSecrets
  split <;> rfl

/-! ## 4. Key-generation secrets -/

end SecretStore

end Safenet
