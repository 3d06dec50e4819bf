/-
# Nothing of a batch is lost

The packed payload of a MultiSend batch is a list of records, each as long as a number inside it
says.  Packing and decoding are inverse to each other (`packing_exact`): what is packed decodes to
the same calls, and what decodes was packed, byte by byte, so no byte of a payload is ignored and a
payload that ends inside a record is rejected.  The one thing decoding changes is the zero address,
which from v1.5.0 on stands for the Safe.

Batches nest.  The calls a transaction comes down to are the leaves of a tree, whose inner nodes are
the batches that decode; `decode_target_effects` flattens it, and `effects_exact` says that it meets
the leaves in the order in which the deployed contracts would issue them.
-/
import Safenet.Engine.Batches

namespace Safenet
namespace Engine

/-! ## 1. Records -/

/-- The call as the decoder reads it: from v1.5.0 on, a zero address is the Safe's own. -/
def Call.resolve (safe : Address) (version : MultiSendVersion) (c : Call) : Call :=
  { c with «to» := if version = .v150Plus ∧ c.to = 0 then safe else c.to }

theorem callOf_subTransaction (safe : Address) (version : MultiSendVersion) (c : Call) :
    callOf (c.subTransaction safe version) = c.resolve safe version := rfl

theorem Call.resolve_legacy (safe : Address) (c : Call) : c.resolve safe .legacy = c := by
  simp [Call.resolve]

theorem Operation.toNat_of_ofByte {b : Nat} {op : Operation} (h : Operation.ofByte b = some op) :
    op.toNat = b := by
  match b, h with
  | 0, h => simp [← Option.some.inj h, Operation.toNat]
  | 1, h => simp [← Option.some.inj h, Operation.toNat]

/-- A record that decodes is the packed form of the call it decodes to. -/
theorem Entry.exists_pack {safe : Address} {version : MultiSendVersion} {cursor : Bytes}
    {tx : SafeTransaction} (e : Entry safe version cursor tx) :
    ∃ c : Call, c.data = tx.data ∧ callOf tx = c.resolve safe version ∧
      cursor = c.pack ++ cursor.drop (85 + tx.data.length) := by
  have hwhole := e.whole
  have hop : beBytes 1 tx.operation.toNat = cursor.take 1 := by
    rw [Operation.toNat_of_ofByte e.operation_eq]
    exact beBytes_beNat (by rw [List.length_take]; omega)
  have hto : beBytes 20 (Fin.ofNat (2 ^ 160) (beNat ((cursor.drop 1).take 20))).val =
      (cursor.drop 1).take 20 := by
    have hlen : ((cursor.drop 1).take 20).length = 20 := by
      rw [List.length_take, List.length_drop]
      omega
    have hlt := beNat_lt ((cursor.drop 1).take 20)
    rw [hlen] at hlt
    rw [Fin.val_ofNat, Nat.mod_eq_of_lt (by norm_num at hlt ⊢; exact hlt)]
    exact beBytes_beNat hlen
  have hvalue : beBytes 32 tx.value.val = (cursor.drop 21).take 32 := by
    have hlen : ((cursor.drop 21).take 32).length = 32 := by
      rw [List.length_take, List.length_drop]
      omega
    have hlt := beNat_lt ((cursor.drop 21).take 32)
    rw [hlen] at hlt
    rw [e.value_eq, Fin.val_ofNat, Nat.mod_eq_of_lt (by norm_num at hlt ⊢; exact hlt)]
    exact beBytes_beNat hlen
  have hlength : beBytes 32 tx.data.length = (cursor.drop 53).take 32 := by
    rw [← e.length_eq]
    exact beBytes_beNat (by rw [List.length_take, List.length_drop]; omega)
  refine ⟨⟨tx.operation, Fin.ofNat (2 ^ 160) (beNat ((cursor.drop 1).take 20)), tx.value,
    tx.data⟩, rfl, ?_, ?_⟩
  · rw [callOf, Call.resolve, e.to_eq]
  · rw [Call.pack]
    dsimp only
    rw [hop, hto, hvalue, hlength]
    conv_lhs => rw [← List.take_append_drop 1 cursor, ← List.take_append_drop 20 (cursor.drop 1),
      List.drop_drop, ← List.take_append_drop 32 (cursor.drop (1 + 20)), List.drop_drop,
      ← List.take_append_drop 32 (cursor.drop (1 + 20 + 32)), List.drop_drop,
      ← List.take_append_drop tx.data.length (cursor.drop (1 + 20 + 32 + 32)), List.drop_drop]
    simp only [Nat.reduceAdd, List.append_assoc, ← e.data_eq]

/-- **What decodes was packed.** -/
theorem exists_pack_of_decodeMultiSend {safe : Address} {version : MultiSendVersion}
    {payload : Bytes} {subs : List SafeTransaction}
    (h : decodeMultiSend safe version payload = some subs) :
    ∃ calls : List Call, (∀ c ∈ calls, c.data.length < 2 ^ 64) ∧
      payload = calls.flatMap Call.pack ∧ subs.map callOf = calls.map (Call.resolve safe version) := by
  induction subs generalizing payload with
  | nil => exact ⟨[], by simp, decodeMultiSend_eq_nil h, rfl⟩
  | cons tx subs ih =>
    obtain ⟨rest, he, hrest⟩ := decodeMultiSend_eq_cons.mp h
    obtain ⟨e, rfl⟩ := decodeEntry_eq_some he
    obtain ⟨c, hdata, hcall, hpack⟩ := e.exists_pack
    obtain ⟨calls, hlen, hpayload, hcalls⟩ := ih hrest
    refine ⟨c :: calls, ?_, ?_, ?_⟩
    · intro d hd
      rcases List.mem_cons.mp hd with rfl | hd
      · rw [hdata]
        exact e.length_lt
      · exact hlen d hd
    · rw [List.flatMap_cons, ← hpayload]
      exact hpack
    · rw [List.map_cons, List.map_cons, hcall, hcalls]

/-- The records of a list are the only ones its bytes begin with. -/
theorem eq_take_of_flatMap_pack {calls taken : List Call} {rest : Bytes}
    (hcalls : ∀ c ∈ calls, c.data.length < 2 ^ 64) (htaken : ∀ c ∈ taken, c.data.length < 2 ^ 64)
    (h : taken.flatMap Call.pack ++ rest = calls.flatMap Call.pack) :
    taken = calls.take taken.length := by
  induction taken generalizing calls with
  | nil => rw [List.length_nil, List.take_zero]
  | cons c taken ih =>
    have hfirst := decodeEntry_pack 0 .legacy (htaken c (by simp)) (taken.flatMap Call.pack ++ rest)
    rw [← List.append_assoc, ← List.flatMap_cons, h] at hfirst
    cases calls with
    | nil =>
      have hwhole := (decodeEntry_eq_some hfirst).1.whole
      rw [List.flatMap_nil, List.length_nil] at hwhole
      omega
    | cons d calls =>
      rw [List.flatMap_cons, decodeEntry_pack 0 .legacy (hcalls d (by simp)), Option.some.injEq,
        Prod.mk.injEq] at hfirst
      have hcd := congrArg callOf hfirst.1
      rw [callOf_subTransaction, callOf_subTransaction, Call.resolve_legacy,
        Call.resolve_legacy] at hcd
      have htail := ih (fun x hx => hcalls x (by simp [hx])) (fun x hx => htaken x (by simp [hx]))
        hfirst.2.symm
      rw [List.length_cons, List.take_succ_cons, ← htail, hcd]

/-- Packing and decoding are inverse to each other. -/
structure PacksExactly (safe : Address) (version : MultiSendVersion) : Prop where
  /-- What is packed decodes to the same calls, made for the Safe and without other fields. -/
  decodes : ∀ calls : List Call, (∀ c ∈ calls, c.data.length < 2 ^ 64) →
    decodeMultiSend safe version (calls.flatMap Call.pack) =
        some (calls.map (Call.subTransaction safe version)) ∧
      (calls.map (Call.subTransaction safe version)).map callOf =
        calls.map (Call.resolve safe version)
  /-- What decodes is the packed form of what it decodes to. -/
  packs : ∀ payload subs, decodeMultiSend safe version payload = some subs →
    ∃ calls : List Call, payload = calls.flatMap Call.pack ∧
      subs = calls.map (Call.subTransaction safe version)
  /-- Without the rule for the zero address, to the letter. -/
  packs_legacy : ∀ payload subs, version = .legacy →
    decodeMultiSend safe version payload = some subs →
      payload = (subs.map callOf).flatMap Call.pack
  /-- A payload cut inside a record is rejected. -/
  truncated : ∀ (calls : List Call) (n : Nat), (∀ c ∈ calls, c.data.length < 2 ^ 64) →
    n ≤ (calls.flatMap Call.pack).length →
    (∀ k, n ≠ ((calls.take k).flatMap Call.pack).length) →
      decodeMultiSend safe version ((calls.flatMap Call.pack).take n) = none

/-- **The packed encoding loses nothing**, in either version. -/
theorem packing_exact (safe : Address) (version : MultiSendVersion) :
    PacksExactly safe version := by
  refine ⟨fun calls hlen => ⟨decodeMultiSend_flatMap_pack safe version hlen, ?_⟩,
    fun payload subs h => ?_, fun payload subs hversion h => ?_, fun calls n hlen hn hcut => ?_⟩
  · rw [List.map_map]
    rfl
  · obtain ⟨calls, hlen, hpayload, -⟩ := exists_pack_of_decodeMultiSend h
    have hdecode := decodeMultiSend_flatMap_pack safe version hlen
    rw [← hpayload, h, Option.some.injEq] at hdecode
    exact ⟨calls, hpayload, hdecode⟩
  · obtain ⟨calls, -, hpayload, hcalls⟩ := exists_pack_of_decodeMultiSend h
    have hid : calls.map (Call.resolve safe version) = calls := by
      rw [hversion]
      exact List.map_id'' (Call.resolve_legacy safe) calls
    rw [hcalls, hid]
    exact hpayload
  · cases hdecode : decodeMultiSend safe version ((calls.flatMap Call.pack).take n) with
    | none => rfl
    | some subs =>
      obtain ⟨taken, htaken, hbegins, -⟩ := exists_pack_of_decodeMultiSend hdecode
      have happend := List.take_append_drop n (calls.flatMap Call.pack)
      rw [hbegins] at happend
      have heq := eq_take_of_flatMap_pack hlen htaken happend
      refine absurd ?_ (hcut taken.length)
      rw [← heq, ← hbegins, List.length_take, min_eq_left hn]

/-! ## 2. The order onchain -/

/-- The loop of the deployed contract from offset `i` on, where nothing reverts: the calls it
issues, in order. -/
inductive Runs (d : Deployment) (safe : Address) (m : Nat → UInt8) (length : Nat) :
    Nat → List Call → Prop
  | stop {i : Nat} : length ≤ i → Runs d safe m length i []
  | next {i : Nat} {c : Call} {calls : List Call} : i < length → d.callAt safe m i = some c →
      Runs d safe m length ((i + (0x55 + mload m (i + 0x35))) % 2 ^ 256) calls →
      Runs d safe m length i (c :: calls)

/-- What the contract reads of a record is the call the decoder read, or it reverts. -/
theorem Entry.eq_of_callAt {d : Deployment} {safe : Address} {payload : Bytes} {k : Nat}
    {tx : SafeTransaction} (e : Entry safe d.version (payload.drop k) tx)
    (m : PayloadMemory payload) {c : Call} (h : d.callAt safe m.byte (0x20 + k) = some c) :
    c = callOf tx ∧ (tx.operation = .delegatecall → d.allowsDelegateCalls = true) := by
  -- the same record, read by a contract that allows everything
  have hall : ({ d with allowsDelegateCalls := true } : Deployment).callAt safe m.byte (0x20 + k) =
      some (callOf tx) :=
    Entry.callAt_eq (d := { d with allowsDelegateCalls := true }) e m fun _ => rfl
  unfold Deployment.callAt at h hall
  dsimp only at h hall
  split at h
  · rename_i hop
    rw [hop] at hall
    have hc := h.symm.trans hall
    refine ⟨Option.some.inj hc, fun hdel => ?_⟩
    have hcall := congrArg Call.operation (Option.some.inj hall)
    rw [callOf, hdel] at hcall
    exact absurd hcall (by simp)
  · rename_i hop
    rw [hop] at hall
    rw [if_pos rfl] at hall
    split at h
    · rename_i hallow
      exact ⟨Option.some.inj (h.symm.trans hall), fun _ => hallow⟩
    · exact absurd h (by simp)
  · exact absurd h (by simp)

/-- **The contract issues the decoded calls, in order**, if it allows them all. -/
theorem runs_iff {d : Deployment} {safe : Address} {payload : Bytes} {k : Nat}
    {subs : List SafeTransaction} {calls : List Call} (m : PayloadMemory payload)
    (husize : payload.length < 2 ^ 64)
    (h : decodeMultiSend safe d.version (payload.drop k) = some subs) (hk : k ≤ payload.length) :
    Runs d safe m.byte payload.length (0x20 + k) calls ↔
      calls = subs.map callOf ∧
        ∀ sub ∈ subs, sub.operation = .delegatecall → d.allowsDelegateCalls = true := by
  induction subs generalizing k calls with
  | nil =>
    have hend : payload.length ≤ k := by simpa using decodeMultiSend_eq_nil h
    constructor
    · rintro (hstop | ⟨hlt, -, -⟩)
      · exact ⟨rfl, by simp⟩
      · omega
    · rintro ⟨rfl, -⟩
      exact .stop (by omega)
  | cons tx subs ih =>
    obtain ⟨rest, he, hrest⟩ := decodeMultiSend_eq_cons.mp h
    obtain ⟨e, rfl⟩ := decodeEntry_eq_some he
    have hwhole := e.whole
    rw [List.length_drop] at hwhole
    have hlt : 0x20 + k < payload.length := by omega
    have hnext : (0x20 + k + (0x55 + mload m.byte (0x20 + k + 0x35))) % 2 ^ 256 =
        0x20 + (k + (85 + tx.data.length)) := by
      rw [e.mload_length m, Nat.mod_eq_of_lt (by omega)]
      omega
    rw [List.drop_drop] at hrest
    have ih := fun calls => @ih (k + (85 + tx.data.length)) calls hrest (by omega)
    constructor
    · rintro (hstop | ⟨-, hcall, hruns⟩)
      · omega
      · rw [hnext, ih] at hruns
        obtain ⟨rfl, hallow⟩ := e.eq_of_callAt m hcall
        obtain ⟨rfl, hrest⟩ := hruns
        refine ⟨rfl, fun sub hsub => ?_⟩
        rcases List.mem_cons.mp hsub with rfl | hsub
        · exact hallow
        · exact hrest sub hsub
    · rintro ⟨rfl, hallow⟩
      refine .next hlt (e.callAt_eq m (hallow tx (by simp))) ?_
      rw [hnext, ih]
      exact ⟨rfl, fun sub hsub => hallow sub (by simp [hsub])⟩

/-! ## 3. Nested batches -/

mutual

/-- The leaves of the tree of batches under a transaction, from left to right: a batch that decodes
is a node, everything else a leaf. -/
inductive Leaves (A : Abi) : SafeTransaction → List SafeTransaction → Prop
  | leaf {tx : SafeTransaction} : A.decodeMultiSendCall tx = none → Leaves A tx [tx]
  | node {tx : SafeTransaction} {subs leaves : List SafeTransaction} {allows : Bool} :
      A.decodeMultiSendCall tx = some (subs, allows) → LeavesOf A subs leaves → Leaves A tx leaves

/-- The leaves under a list of transactions. -/
inductive LeavesOf (A : Abi) : List SafeTransaction → List SafeTransaction → Prop
  | nil : LeavesOf A [] []
  | cons {tx : SafeTransaction} {txs leaves leaves' : List SafeTransaction} :
      Leaves A tx leaves → LeavesOf A txs leaves' → LeavesOf A (tx :: txs) (leaves ++ leaves')

end

variable {A : Abi} {tx : SafeTransaction}

/-- The leaves under a list, given those under each member. -/
theorem leavesOf_iff {txs : List SafeTransaction} {f : SafeTransaction → List SafeTransaction}
    (h : ∀ tx ∈ txs, ∀ leaves, Leaves A tx leaves ↔ leaves = f tx) (leaves : List SafeTransaction) :
    LeavesOf A txs leaves ↔ leaves = txs.flatMap f := by
  induction txs generalizing leaves with
  | nil =>
    constructor
    · rintro ⟨⟩
      rfl
    · rintro rfl
      exact .nil
  | cons tx txs ih =>
    have ih := ih fun tx htx => h tx (by simp [htx])
    have htx := h tx (by simp)
    rw [List.flatMap_cons]
    constructor
    · rintro ⟨⟩
      rename_i l l' hl hl'
      rw [(htx l).mp hl, (ih l').mp hl']
    · rintro rfl
      exact .cons ((htx _).mpr rfl) ((ih _).mpr rfl)

/-- The tree under a transaction is finite: the calldata of a node's children is shorter. -/
theorem exists_leaves (A : Abi) (n : Nat) : ∃ f : SafeTransaction → List SafeTransaction,
    ∀ tx : SafeTransaction, tx.data.length < n → ∀ leaves, Leaves A tx leaves ↔ leaves = f tx := by
  induction n with
  | zero => exact ⟨fun _ => [], fun tx h => absurd h (Nat.not_lt_zero _)⟩
  | succ n ih =>
    obtain ⟨f, hf⟩ := ih
    refine ⟨fun tx => (A.decodeMultiSendCall tx).elim [tx] fun b => b.1.flatMap f,
      fun tx htx leaves => ?_⟩
    dsimp only
    cases hdecode : A.decodeMultiSendCall tx with
    | none =>
      constructor
      · rintro (- | ⟨hsome, -⟩)
        · rfl
        · exact absurd (hdecode.symm.trans hsome) (by simp)
      · rintro rfl
        exact .leaf hdecode
    | some b =>
      obtain ⟨subs, allows⟩ := b
      have hsubs : ∀ sub ∈ subs, ∀ leaves, Leaves A sub leaves ↔ leaves = f sub := by
        intro sub hsub
        have hlt := data_lt_of_decodeMultiSendCall hdecode hsub
        exact hf sub (by omega)
      have hof := leavesOf_iff hsubs leaves
      constructor
      · rintro (hnone | ⟨hsome, hleaves⟩)
        · exact absurd (hdecode.symm.trans hnone) (by simp)
        · rw [hdecode, Option.some.injEq, Prod.mk.injEq] at hsome
          rw [← hsome.1] at hleaves
          exact hof.mp hleaves
      · intro heq
        exact .node hdecode (hof.mpr heq)

/-- The leaves are determined. -/
theorem exists_leaves_iff (A : Abi) (tx : SafeTransaction) :
    ∃ leaves₀, ∀ leaves, Leaves A tx leaves ↔ leaves = leaves₀ := by
  obtain ⟨f, hf⟩ := exists_leaves A (tx.data.length + 1)
  exact ⟨f tx, hf tx (Nat.lt_succ_self _)⟩

mutual

/-- The effects of a transaction are those of its leaves, in order. -/
theorem Leaves.effects_eq {tx : SafeTransaction} {leaves : List SafeTransaction} :
    Leaves A tx leaves → A.decodeTargetEffects tx = leaves.flatMap A.decodeCall
  | .leaf h => by rw [decodeTargetEffects_single h, List.flatMap_singleton]
  | .node h hsubs => by rw [decodeTargetEffects_batch h, hsubs.effects_eq]

theorem LeavesOf.effects_eq {txs leaves : List SafeTransaction} :
    LeavesOf A txs leaves → txs.flatMap A.decodeTargetEffects = leaves.flatMap A.decodeCall
  | .nil => rfl
  | .cons h hs => by rw [List.flatMap_cons, List.flatMap_append, h.effects_eq, hs.effects_eq]

end

/-- What flattening a transaction owes. -/
structure FlattensExactly (A : Abi) (tx : SafeTransaction) : Prop where
  /-- The recursion descends. -/
  descends : ∀ subs allows, A.decodeMultiSendCall tx = some (subs, allows) →
    ∀ sub ∈ subs, sub.data.length < tx.data.length
  /-- The tree has one list of leaves, and the effects are theirs, from left to right. -/
  effects : ∃ leaves, (∀ leaves', Leaves A tx leaves' ↔ leaves' = leaves) ∧
    A.decodeTargetEffects tx = leaves.flatMap A.decodeCall
  /-- From left to right is the order of the calls onchain, at every node. -/
  order : ∀ version allows payload subs, Batch A tx version allows payload subs →
    ∀ (m : PayloadMemory payload) (calls : List Call),
      Runs ⟨tx.to, version, allows⟩ tx.safe m.byte payload.length 0x20 calls ↔
        calls = subs.map callOf ∧ ∀ sub ∈ subs, sub.operation = .delegatecall → allows = true

/-- **Flattening is complete**: every transaction, with batches nested in it to any depth, comes down
to the effects of its leaves, in the order in which the Safe would make those calls. -/
theorem effects_exact (A : Abi) (tx : SafeTransaction) : FlattensExactly A tx := by
  refine ⟨fun subs allows h sub hsub => data_lt_of_decodeMultiSendCall h hsub, ?_, ?_⟩
  · obtain ⟨leaves, hleaves⟩ := exists_leaves_iff A tx
    exact ⟨leaves, hleaves, ((hleaves leaves).mpr rfl).effects_eq⟩
  · intro version allows payload subs b m calls
    have husize : payload.length < 2 ^ 64 := by
      refine A.multiSend_usize (tx.data.drop 4) payload ?_
      rw [← b.data, SolCall.abiDecode, if_pos (SolCall.startsWith_of_abiDecode b.data)]
      rfl
    exact runs_iff (d := ⟨tx.to, version, allows⟩) (k := 0) m husize b.subs (Nat.zero_le _)

end Engine

end Safenet
