/-
# Sorted-pair Merkle trees

`merkle.rs`: the tree is its list of levels, leaves first; an odd level is padded with the
zero word, and a pair is hashed in ascending order so that a proof needs no left/right bits.
-/
import Safenet.Basic
import Safenet.Lib.HashTree

namespace Safenet

variable (keccak256 : Bytes → B256)

/-- Hashes a pair of nodes in ascending order. -/
def hashPair (a b : B256) : B256 :=
  let (left, right) := if a ≤ b then (a, b) else (b, a)
  keccak256 (B256.toBytes left ++ B256.toBytes right)

/-- What is hashed for a pair, whichever way round it is given. -/
def pairBytes : Sym2 B256 → Bytes :=
  Sym2.lift ⟨fun a b => B256.toBytes (min a b) ++ B256.toBytes (max a b), fun a b => by
    dsimp only
    rw [min_comm, max_comm]⟩

/-- The hash of an unordered pair. -/
def pairHash (p : Sym2 B256) : B256 := keccak256 (pairBytes p)

theorem hashPair_eq (a b : B256) : hashPair keccak256 a b = pairHash keccak256 s(a, b) := by
  by_cases h : a ≤ b
  · simp [hashPair, pairHash, pairBytes, h]
  · simp [hashPair, pairHash, pairBytes, h, (not_le.mp h).le]

/-- The bytes hashed tell two pairs apart. -/
theorem pairBytes_injective : Function.Injective pairBytes := by
  intro p q h
  induction p with
  | h a b =>
    induction q with
    | h c d =>
      obtain ⟨hmin, hmax⟩ := List.append_inj h (by simp)
      have hmin := B256.toBytes_injective hmin
      have hmax := B256.toBytes_injective hmax
      rw [Sym2.eq_iff]
      rcases le_total a b with hab | hab <;> rcases le_total c d with hcd | hcd <;>
        simp only [hab, hcd, min_eq_left, min_eq_right, max_eq_left, max_eq_right] at hmin hmax <;>
        simp [hmin, hmax]

/-- The level above `level`: `div_ceil(len, 2)` pairs, the missing sibling read as zero. -/
def nextLevel (level : List B256) : List B256 :=
  (List.range ((level.length + 1) / 2)).map fun i =>
    hashPair keccak256 (level[i * 2]?.getD 0) (level[i * 2 + 1]?.getD 0)

/-- A Merkle tree: its levels, the leaves first. -/
structure MerkleTree where
  levels : List (List B256)

namespace MerkleTree

/-- The levels above and including `level`.  Every level is shorter than the one below it
while it has more than one node, so the number of leaves is enough fuel. -/
def buildLevels : Nat → List B256 → List (List B256)
  | 0, level => [level]
  | fuel + 1, level =>
    if 1 < level.length then level :: buildLevels fuel (nextLevel keccak256 level) else [level]

/-- Builds a Merkle tree from its leaves. -/
def build (leaves : List B256) : MerkleTree := ⟨buildLevels keccak256 leaves.length leaves⟩

variable (t : MerkleTree)

/-- The number of levels. -/
def height : Nat := t.levels.length

/-- The root, zero for the empty tree. -/
def root : B256 := (t.levels.getLast?.bind List.head?).getD 0

/-- The sibling hashes from the leaf at `index` up to, but excluding, the root. -/
def proof (index : Nat) : List B256 :=
  (t.levels.take (t.height - 1)).zipIdx.map fun (level, i) =>
    level[(index >>> i) ^^^ 1]?.getD 0

end MerkleTree

/-! ## Proofs lead to the root -/

namespace MerkleTree

theorem nextLevel_length (level : List B256) :
    (nextLevel keccak256 level).length = (level.length + 1) / 2 := by
  rw [nextLevel, List.length_map, List.length_range]

theorem nextLevel_get {level : List B256} {i : Nat} (hi : i < (level.length + 1) / 2) :
    (nextLevel keccak256 level)[i]? =
      some (hashPair keccak256 (level[i * 2]?.getD 0) (level[i * 2 + 1]?.getD 0)) := by
  rw [nextLevel, List.getElem?_map, List.getElem?_range hi]
  rfl

theorem buildLevels_ne_nil (fuel : Nat) (level : List B256) :
    buildLevels keccak256 fuel level ≠ [] := by
  cases fuel with
  | zero => simp [buildLevels]
  | succ fuel =>
    rw [buildLevels]
    split <;> simp

/-- The proof of a leaf is its sibling, and the proof of its parent in the tree above. -/
theorem proof_cons {level : List B256} {levels : List (List B256)} (h : levels ≠ []) (i : Nat) :
    (MerkleTree.mk (level :: levels)).proof i =
      level[i ^^^ 1]?.getD 0 :: (MerkleTree.mk levels).proof (i / 2) := by
  obtain ⟨n, hn⟩ : ∃ n, levels.length = n + 1 :=
    ⟨levels.length - 1, (Nat.succ_pred_eq_of_pos (List.length_pos_iff.mpr h)).symm⟩
  simp only [proof, height, List.length_cons, hn, Nat.add_sub_cancel, List.take_succ_cons,
    List.zipIdx_cons, List.map_cons, Nat.shiftRight_zero]
  rw [List.zipIdx_eq_map_add, List.map_map]
  congr 2
  funext x
  simp only [Function.comp, Nat.zero_add]
  rw [Nat.shiftRight_add, Nat.shiftRight_one]

theorem root_cons {level : List B256} {levels : List (List B256)} (h : levels ≠ []) :
    (MerkleTree.mk (level :: levels)).root = (MerkleTree.mk levels).root := by
  rw [root, root, List.getLast?_cons_of_ne_nil h]

/-- The parent of a node is the hash of the node and its sibling, whichever comes first. -/
theorem nextLevel_parent {level : List B256} {i : Nat} {w : B256} (hi : level[i]? = some w) :
    (nextLevel keccak256 level)[i / 2]? =
      some (pairHash keccak256 s(w, level[i ^^^ 1]?.getD 0)) := by
  obtain ⟨hlt, -⟩ := List.getElem?_eq_some_iff.mp hi
  rw [nextLevel_get keccak256 (by omega), hashPair_eq]
  rcases Nat.even_or_odd i with he | ho
  · rw [Nat.xor_one_of_even he, Nat.div_two_mul_two_of_even he, hi]
    rfl
  · rw [Nat.xor_one_of_odd ho, Nat.div_two_mul_two_add_one_of_odd ho, hi, Sym2.eq_swap]
    have hdiv := Nat.div_two_mul_two_add_one_of_odd ho
    rw [show i / 2 * 2 = i - 1 by omega]
    rfl

/-- **Every leaf's proof leads to the root.** -/
theorem climb_proof (fuel : Nat) (level : List B256) (i : Nat) (w : B256)
    (hfuel : level.length ≤ fuel) (hi : level[i]? = some w) :
    HashTree.climb (pairHash keccak256) w
      ((MerkleTree.mk (buildLevels keccak256 fuel level)).proof i) =
        (MerkleTree.mk (buildLevels keccak256 fuel level)).root := by
  induction fuel generalizing level i w with
  | zero =>
    obtain ⟨hlt, -⟩ := List.getElem?_eq_some_iff.mp hi
    omega
  | succ fuel ih =>
    obtain ⟨hlt, hget⟩ := List.getElem?_eq_some_iff.mp hi
    rw [buildLevels]
    split
    · have hne := buildLevels_ne_nil keccak256 fuel (nextLevel keccak256 level)
      rw [proof_cons hne, root_cons hne, ← ih (nextLevel keccak256 level) (i / 2) _ ?_
        (nextLevel_parent keccak256 hi)]
      · rfl
      · rw [nextLevel_length]
        omega
    · have hone : level = [w] := by
        obtain ⟨x, rfl⟩ := List.length_eq_one_iff.mp (show level.length = 1 by omega)
        have hzero : i = 0 := by simpa using hlt
        subst hzero
        exact congrArg (fun x => [x]) hget
      rw [hone]
      rfl

/-- The proof of a leaf of a full tree is as long as the tree is high. -/
theorem proof_length (h fuel : Nat) (level : List B256) (i : Nat) (hlevel : level.length = 2 ^ h)
    (hfuel : level.length ≤ fuel) :
    ((MerkleTree.mk (buildLevels keccak256 fuel level)).proof i).length = h := by
  induction h generalizing fuel level i with
  | zero =>
    cases fuel with
    | zero => simp [buildLevels, proof, height]
    | succ fuel => simp [buildLevels, hlevel, proof, height]
  | succ h ih =>
    have hpow := Nat.one_le_two_pow (n := h)
    rw [Nat.pow_succ] at hlevel
    cases fuel with
    | zero => omega
    | succ fuel =>
      rw [buildLevels, if_pos (by omega), proof_cons (buildLevels_ne_nil keccak256 _ _),
        List.length_cons,
        ih _ _ _ (by rw [nextLevel_length]; omega) (by rw [nextLevel_length]; omega)]

end MerkleTree

end Safenet
