/-
# Tokens

A contract that holds tokens is verified over any token that keeps the standard's promises: a
transfer moves what it says and nothing else, it takes from nobody but the caller or an account that
has approved the caller, and only an account itself approves others.

What such a contract needs is about its OWN balance.  An account that has approved nobody
(`Unapproved`) loses nothing by the calls of others (`Standard.call`); it gets what it pulls
(`Standard.pull`), and pays no more than it pushes (`Standard.push`).

`plain` is the token that is a table of balances and a table of allowances.
-/
import Mathlib.Logic.Function.Basic
import Mathlib.Data.Nat.Basic
import Mathlib.Order.Basic

/-- A token with accounts `α` and states `τ`.  A call that reverts is `none`. -/
structure ERC20 (α τ : Type) where
  balanceOf : τ → α → Nat
  /-- What the first account lets the second spend. -/
  allowance : τ → α → α → Nat
  transfer : τ → (sender recipient : α) → Nat → Option τ
  transferFrom : τ → (spender owner recipient : α) → Nat → Option τ
  approve : τ → (owner spender : α) → Nat → Option τ

namespace ERC20

variable {α τ : Type} [DecidableEq α]

/-- The balances after an amount went from one account to another. -/
def moved (balances : α → Nat) (owner recipient : α) (n : Nat) : α → Nat :=
  let taken := Function.update balances owner (balances owner - n)
  Function.update taken recipient (taken recipient + n)

theorem moved_of_ne {balances : α → Nat} {owner recipient a : α} {n : Nat} (ho : a ≠ owner)
    (hr : a ≠ recipient) : moved balances owner recipient n a = balances a := by
  simp [moved, ho, hr]

theorem moved_recipient {balances : α → Nat} {owner recipient : α} {n : Nat} (h : recipient ≠ owner) :
    moved balances owner recipient n recipient = balances recipient + n := by
  simp [moved, h]

/-- An owner that pays itself keeps what it has. -/
theorem moved_owner {balances : α → Nat} {owner : α} {n : Nat} (hn : n ≤ balances owner)
    (recipient : α) :
    moved balances owner recipient n owner + (if recipient = owner then 0 else n) = balances owner := by
  by_cases h : recipient = owner
  · subst h
    simp only [moved, Function.update_self, if_true]
    omega
  · rw [if_neg h, moved, Function.update_of_ne (Ne.symm h), Function.update_self]
    omega

/-- Nobody but the owner has less than before. -/
theorem le_moved {balances : α → Nat} {owner recipient a : α} {n : Nat} (h : a ≠ owner) :
    balances a ≤ moved balances owner recipient n a := by
  by_cases hr : a = recipient
  · subst hr
    rw [moved_recipient h]
    exact Nat.le_add_right _ _
  · exact (moved_of_ne h hr).ge

variable [Zero α]

/-- What the standard promises. -/
structure Standard (T : ERC20 α τ) : Prop where
  transfer {t t' : τ} {sender recipient : α} {n : Nat} :
    T.transfer t sender recipient n = some t' → n ≤ T.balanceOf t sender ∧
      T.balanceOf t' = moved (T.balanceOf t) sender recipient n ∧ T.allowance t' = T.allowance t
  transferFrom {t t' : τ} {spender owner recipient : α} {n : Nat} :
    T.transferFrom t spender owner recipient n = some t' →
      n ≤ T.allowance t owner spender ∧ n ≤ T.balanceOf t owner ∧
      T.balanceOf t' = moved (T.balanceOf t) owner recipient n ∧
      ∀ a b, T.allowance t' a b ≤ T.allowance t a b
  approve {t t' : τ} {owner spender : α} {n : Nat} :
    T.approve t owner spender n = some t' → T.balanceOf t' = T.balanceOf t ∧
      ∀ a ≠ owner, T.allowance t' a = T.allowance t a
  /-- A transfer of what there is, to an account that is not zero, does not revert. -/
  transfers (t : τ) (sender : α) {recipient : α} {n : Nat} :
    n ≤ T.balanceOf t sender → recipient ≠ 0 → (T.transfer t sender recipient n).isSome

/-- An account that lets nobody spend for it. -/
def Unapproved (T : ERC20 α τ) (t : τ) (self : α) : Prop := ∀ spender, T.allowance t self spender = 0

/-- The calls of a token. -/
inductive Call (α : Type) where
  | transfer (recipient : α) (n : Nat)
  | transferFrom (owner recipient : α) (n : Nat)
  | approve (spender : α) (n : Nat)
  deriving DecidableEq

/-- A call, by an account. -/
def exec (T : ERC20 α τ) (t : τ) (caller : α) : Call α → Option τ
  | .transfer recipient n => T.transfer t caller recipient n
  | .transferFrom owner recipient n => T.transferFrom t caller owner recipient n
  | .approve spender n => T.approve t caller spender n

namespace Standard

variable {T : ERC20 α τ} (h : T.Standard) {t t' : τ} {self : α}
include h

/-- **The calls of others** take nothing from an account that has approved nobody. -/
theorem call {caller : α} {call : Call α} (hc : T.exec t caller call = some t') (hcaller : caller ≠ self)
    (hself : T.Unapproved t self) :
    T.balanceOf t self ≤ T.balanceOf t' self ∧ T.Unapproved t' self := by
  cases call with
  | transfer recipient n =>
    obtain ⟨-, hbalance, hallowance⟩ := h.transfer hc
    rw [hbalance]
    exact ⟨le_moved (Ne.symm hcaller), fun s => (congrFun (congrFun hallowance self) s).trans (hself s)⟩
  | transferFrom owner recipient n =>
    obtain ⟨hn, hle, hbalance, hallowance⟩ := h.transferFrom hc
    rw [hbalance]
    refine ⟨?_, fun s => Nat.le_zero.mp ((hallowance self s).trans (hself s).le)⟩
    by_cases howner : self = owner
    · subst howner
      rw [hself] at hn
      have := moved_owner hle recipient
      split at this <;> omega
    · exact le_moved howner
  | approve spender n =>
    obtain ⟨hbalance, hallowance⟩ := h.approve hc
    rw [hbalance]
    exact ⟨le_rfl, fun s => (congrFun (hallowance self (Ne.symm hcaller)) s).trans (hself s)⟩

/-- **A push** takes no more than it says. -/
theorem push {recipient : α} {n : Nat} (hc : T.transfer t self recipient n = some t')
    (hself : T.Unapproved t self) :
    T.balanceOf t self ≤ T.balanceOf t' self + n ∧ T.Unapproved t' self := by
  obtain ⟨hle, hbalance, hallowance⟩ := h.transfer hc
  rw [hbalance]
  refine ⟨?_, fun s => (congrFun (congrFun hallowance self) s).trans (hself s)⟩
  have := moved_owner hle recipient
  split at this <;> omega

/-- **A pull** of something gives what it says, for it is not from the account itself. -/
theorem pull {owner : α} {n : Nat} (hc : T.transferFrom t self owner self n = some t') (hn : 0 < n)
    (hself : T.Unapproved t self) :
    T.balanceOf t' self = T.balanceOf t self + n ∧ T.Unapproved t' self := by
  obtain ⟨hallowed, -, hbalance, hallowance⟩ := h.transferFrom hc
  have howner : self ≠ owner := by
    rintro rfl
    rw [hself] at hallowed
    omega
  rw [hbalance]
  exact ⟨moved_recipient howner, fun s => Nat.le_zero.mp ((hallowance self s).trans (hself s).le)⟩

end Standard

/-! ## The plain token -/

/-- A table of balances and a table of allowances. -/
structure Plain (α : Type) where
  balances : α → Nat
  allowances : α → α → Nat

omit [Zero α] in
/-- Take what an account has, for another. -/
def Plain.move (t : Plain α) (owner recipient : α) (n : Nat) : Option (Plain α) :=
  if n ≤ t.balances owner then some { t with balances := moved t.balances owner recipient n } else none

/-- Let an account spend. -/
def Plain.allow (t : Plain α) (owner spender : α) (n : Nat) : Plain α :=
  let ofOwner := Function.update (t.allowances owner) spender n
  { t with allowances := Function.update t.allowances owner ofOwner }

/-- The plain token. -/
def plain : ERC20 α (Plain α) where
  balanceOf := Plain.balances
  allowance := Plain.allowances
  transfer t sender recipient n := if recipient = 0 then none else t.move sender recipient n
  transferFrom t spender owner recipient n :=
    if recipient = 0 then none
    else if n ≤ t.allowances owner spender then
      (t.allow owner spender (t.allowances owner spender - n)).move owner recipient n
    else none
  approve t owner spender n := some (t.allow owner spender n)

omit [Zero α] in
theorem Plain.move_eq_some {t t' : Plain α} {owner recipient : α} {n : Nat} :
    t.move owner recipient n = some t' ↔
      n ≤ t.balances owner ∧ { t with balances := moved t.balances owner recipient n } = t' := by
  unfold move
  split
  · rename_i hn
    simp only [Option.some.injEq, hn, true_and]
  · rename_i hn
    simp only [reduceCtorEq, hn, false_and]

omit [Zero α] in
theorem Plain.allow_le {t : Plain α} {owner spender : α} {n : Nat}
    (hn : n ≤ t.allowances owner spender) (a b : α) :
    (t.allow owner spender n).allowances a b ≤ t.allowances a b := by
  by_cases ha : a = owner
  · subst ha
    by_cases hb : b = spender
    · subst hb
      simpa [allow] using hn
    · simp [allow, hb]
  · simp [allow, ha]

theorem plain_standard : (plain : ERC20 α (Plain α)).Standard where
  transfer h := by
    simp only [plain, Option.ite_none_left_eq_some, Plain.move_eq_some] at h
    obtain ⟨-, hle, rfl⟩ := h
    exact ⟨hle, rfl, rfl⟩
  transferFrom h := by
    simp only [plain, Option.ite_none_left_eq_some, Option.ite_none_right_eq_some,
      Plain.move_eq_some] at h
    obtain ⟨-, hallowed, hle, rfl⟩ := h
    exact ⟨hallowed, hle, rfl, Plain.allow_le (Nat.sub_le _ _)⟩
  approve h := by
    obtain rfl := Option.some.inj h
    exact ⟨rfl, fun a ha => Function.update_of_ne ha _ _⟩
  transfers t sender {recipient n} hn hr := by
    have hn : n ≤ t.balances sender := hn
    simp [plain, hr, Plain.move, hn]

end ERC20
