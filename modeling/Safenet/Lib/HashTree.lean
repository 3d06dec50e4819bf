/-
# Trees of hashes

A binary tree whose nodes are hashes of the UNORDERED pair of their children, which is what a
verifier that sorts each pair before hashing sees: a proof of inclusion is then a list of
siblings with no left and right in it, and `climb` is the whole verifier.

Nothing is assumed of the hash.  Where two hashes have to be told apart the hypothesis is
`Set.InjOn` over the pairs that were really hashed -- by whoever built the tree (`pairs`) and by
the verifier on its way up (`climbed`) -- because no hash is injective on all of its inputs.

* `exists_climb`: every word at depth `h` has a proof of length `h`, and checking it hashes only
  pairs of the tree;
* `mem_wordsAt_of_climb`: whatever has a proof of length `h` is a word at depth `h`.

A tree that its maker did not build in full has `word`s above depth `h`.  `Full` says that
nobody can build it further: none of these words is the hash of a pair.
-/
import Mathlib

/-- A tree of words. -/
inductive HashTree (W : Type*) where
  | word (w : W)
  | node (left right : HashTree W)

namespace HashTree

variable {W : Type*} (hash : Sym2 W → W)

/-! ## 1. Trees and climbs -/

/-- The word at the top. -/
def root : HashTree W → W
  | word w => w
  | node l r => hash s(root l, root r)

/-- The words at a depth, from left to right. -/
def wordsAt : Nat → HashTree W → List W
  | 0, t => [t.root hash]
  | _ + 1, word _ => []
  | h + 1, node l r => wordsAt h l ++ wordsAt h r

/-- The pairs hashed above a depth. -/
def pairs : Nat → HashTree W → List (Sym2 W)
  | 0, _ => []
  | _ + 1, word _ => []
  | h + 1, node l r => s(l.root hash, r.root hash) :: (pairs h l ++ pairs h r)

/-- No word above depth `h` is the hash of a pair. -/
def Full : Nat → HashTree W → Prop
  | 0, _ => True
  | _ + 1, word w => ∀ p, hash p ≠ w
  | h + 1, node l r => Full h l ∧ Full h r

/-- Hash a word with each sibling in turn. -/
def climb (w : W) (siblings : List W) : W := siblings.foldl (fun w x => hash s(w, x)) w

/-- The pairs a climb hashes. -/
def climbed : W → List W → List (Sym2 W)
  | _, [] => []
  | w, x :: siblings => s(w, x) :: climbed (hash s(w, x)) siblings

@[simp] theorem climb_nil (w : W) : climb hash w [] = w := rfl

@[simp] theorem climb_concat (w x : W) (siblings : List W) :
    climb hash w (siblings ++ [x]) = hash s(climb hash w siblings, x) := by
  simp [climb]

@[simp] theorem climbed_nil (w : W) : climbed hash w [] = [] := rfl

@[simp] theorem climbed_concat (w x : W) (siblings : List W) :
    climbed hash w (siblings ++ [x]) =
      climbed hash w siblings ++ [s(climb hash w siblings, x)] := by
  induction siblings generalizing w with
  | nil => rfl
  | cons y siblings ih => simp [climbed, climb, ih]

/-! ## 2. Completeness -/

/-- **Every word at depth `h` has a proof of length `h`.** -/
theorem exists_climb {h : Nat} {t : HashTree W} {w : W} (hw : w ∈ t.wordsAt hash h) :
    ∃ siblings : List W, siblings.length = h ∧ climb hash w siblings = t.root hash ∧
      ∀ p ∈ climbed hash w siblings, p ∈ t.pairs hash h := by
  induction h generalizing t with
  | zero =>
    rw [wordsAt, List.mem_singleton] at hw
    exact ⟨[], rfl, hw, by simp⟩
  | succ h ih =>
    cases t with
    | word v => exact absurd hw (by simp [wordsAt])
    | node l r =>
      have up : ∀ {a b : HashTree W}, w ∈ a.wordsAt hash h →
          s(a.root hash, b.root hash) = s(l.root hash, r.root hash) →
          (∀ p ∈ a.pairs hash h, p ∈ (node l r).pairs hash (h + 1)) →
          ∃ siblings : List W, siblings.length = h + 1 ∧
            climb hash w siblings = (node l r).root hash ∧
            ∀ p ∈ climbed hash w siblings, p ∈ (node l r).pairs hash (h + 1) := by
        intro a b ha hab hsub
        obtain ⟨siblings, hlen, hroot, hpairs⟩ := ih ha
        refine ⟨siblings ++ [b.root hash], by simp [hlen], ?_, ?_⟩
        · rw [climb_concat, hroot, hab, root]
        · intro p hp
          rw [climbed_concat, List.mem_append, List.mem_singleton, hroot, hab] at hp
          rcases hp with hp | rfl
          · exact hsub p (hpairs p hp)
          · simp [pairs]
      rcases List.mem_append.mp hw with hw | hw
      · exact up hw rfl (fun p hp => by simp [pairs, hp])
      · exact up hw Sym2.eq_swap (fun p hp => by simp [pairs, hp])

/-! ## 3. Soundness -/

/-- **What climbs to the root in `h` steps is a word at depth `h`**, unless two of the pairs
hashed on the way and in the tree collide. -/
theorem mem_wordsAt_of_climb {h : Nat} {t : HashTree W} {w : W} {siblings : List W}
    {S : Set (Sym2 W)} (hfree : S.InjOn hash) (hfull : t.Full hash h)
    (htree : ∀ p ∈ t.pairs hash h, p ∈ S) (hclimb : ∀ p ∈ climbed hash w siblings, p ∈ S)
    (hlen : siblings.length = h) (hroot : climb hash w siblings = t.root hash) :
    w ∈ t.wordsAt hash h := by
  induction h generalizing t siblings with
  | zero =>
    rw [List.length_eq_zero_iff] at hlen
    subst hlen
    rw [wordsAt, List.mem_singleton, ← hroot, climb_nil]
  | succ h ih =>
    obtain ⟨siblings, x, rfl⟩ : ∃ ys x, siblings = ys ++ [x] := by
      rcases List.eq_nil_or_concat siblings with rfl | ⟨ys, x, rfl⟩
      · exact absurd hlen (by simp)
      · exact ⟨ys, x, by simp⟩
    rw [List.length_append, List.length_singleton, Nat.succ_inj] at hlen
    rw [climb_concat] at hroot
    rw [climbed_concat] at hclimb
    have hbelow : ∀ p ∈ climbed hash w siblings, p ∈ S :=
      fun p hp => hclimb p (List.mem_append_left _ hp)
    have htop : s(climb hash w siblings, x) ∈ S := hclimb _ (by simp)
    cases t with
    | word v => exact absurd hroot (hfull _)
    | node l r =>
      have hl : ∀ p ∈ l.pairs hash h, p ∈ S := fun p hp => htree p (by simp [pairs, hp])
      have hr : ∀ p ∈ r.pairs hash h, p ∈ S := fun p hp => htree p (by simp [pairs, hp])
      have hpair := hfree htop (htree _ (by simp [pairs])) hroot
      rcases Sym2.eq_iff.mp hpair with ⟨hw, -⟩ | ⟨hw, -⟩
      · exact List.mem_append_left _ (ih hfull.1 hl hbelow hlen hw)
      · exact List.mem_append_right _ (ih hfull.2 hr hbelow hlen hw)

/-- Every word is the root of a tree that is built in full. -/
theorem exists_full (h : Nat) (w : W) : ∃ t : HashTree W, t.root hash = w ∧ t.Full hash h := by
  induction h generalizing w with
  | zero => exact ⟨word w, rfl, trivial⟩
  | succ h ih =>
    by_cases hp : ∃ p, hash p = w
    · obtain ⟨p, rfl⟩ := hp
      induction p with
      | h a b =>
        obtain ⟨l, rfl, hl⟩ := ih a
        obtain ⟨r, rfl, hr⟩ := ih b
        exact ⟨node l r, rfl, hl, hr⟩
    · exact ⟨word w, rfl, fun p hpw => hp ⟨p, hpw⟩⟩

end HashTree
