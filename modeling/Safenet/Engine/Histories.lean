/-
# The event history, scanned in chunks

The address-poisoning checker asks a provider for one token's events over a range of blocks, in
spans no wider than the provider allows, and stops at the first query that fails.  What it should
decide is a property of the HISTORY: whether the candidate itself occurs in it, and whether one of
its recipients looks like the candidate.

Three things connect the two.  The spans tile the range (`chunks_tile`).  A scan without failures
sees the whole history, whatever the spans and the order of the logs in an answer
(`establishedRecipients_eq`).  And a scan cut short either met the candidate, which the history then
contains, or is not used to deny (`establishedRecipients_partly`).

The refund checker sends a transaction's gas refund through the same scan, as a transfer of its own.
Section 4 compares it with the transfer it stands for.
-/
import Safenet.Engine.Patterns

namespace Safenet
namespace Engine

/-! ## 1. Spans -/

/-- The blocks of a span. -/
def blocksOf (span : Nat × Nat) : List Nat := List.range' span.1 (span.2 + 1 - span.1)

/-- Consecutive spans from `start` up to `last`, none wider than `width`. -/
inductive Tiles (width last : Nat) : Nat → List (Nat × Nat) → Prop
  | last {start : Nat} : start ≤ last → last - start ≤ width → Tiles width last start [(start, last)]
  | cons {start stop : Nat} {spans : List (Nat × Nat)} : start ≤ stop → stop - start ≤ width →
      stop < last → Tiles width last (stop + 1) spans →
      Tiles width last start ((start, stop) :: spans)

theorem tiles_blockChunks (start : Nat) (last : Fin (2 ^ 64)) (width : Nat)
    (h : start ≤ last.val) : Tiles width last.val start (blockChunks start last width) := by
  induction hn : last.val - start using Nat.strong_induction_on generalizing start with
  | _ n ih =>
    have hlast := last.isLt
    unfold blockChunks
    dsimp only
    split
    · rename_i hstop
      have heq : min (satAdd start width) last.val = last.val := by omega
      rw [heq]
      refine .last h ?_
      simp only [satAdd, u64Max] at heq
      omega
    · rename_i hstop
      have hsucc : satAdd (min (satAdd start width) last.val) 1 =
          min (satAdd start width) last.val + 1 := by
        simp only [satAdd, u64Max] at hstop ⊢
        omega
      have hle : start ≤ min (satAdd start width) last.val := by
        simp only [satAdd, u64Max]
        omega
      rw [hsucc]
      refine .cons hle ?_ (by omega) (ih _ (by omega) _ (by omega) rfl)
      simp only [satAdd, u64Max]
      omega

/-- Spans that tile a range have its blocks, in order and each once. -/
theorem Tiles.blocks {width last start : Nat} {spans : List (Nat × Nat)}
    (h : Tiles width last start spans) : spans.flatMap blocksOf = blocksOf (start, last) := by
  induction h with
  | last => rw [List.flatMap_singleton]
  | @cons start stop spans hle _ hlt _ ih =>
    have hsplit : last + 1 - start = (stop + 1 - start) + (last + 1 - (stop + 1)) := by omega
    have hnext : start + 1 * (stop + 1 - start) = stop + 1 := by omega
    rw [List.flatMap_cons, ih, blocksOf, blocksOf, blocksOf, hsplit, ← List.range'_append, hnext]

theorem Tiles.span {width last start : Nat} {spans : List (Nat × Nat)}
    (h : Tiles width last start spans) {span : Nat × Nat} (hspan : span ∈ spans) :
    span.1 ≤ span.2 ∧ span.2 - span.1 ≤ width ∧ span.2 ≤ last := by
  induction h with
  | last hle hwidth =>
    obtain rfl := List.mem_singleton.mp hspan
    exact ⟨hle, hwidth, le_refl _⟩
  | cons hle hwidth hlt _ ih =>
    rcases List.mem_cons.mp hspan with rfl | hspan
    · exact ⟨hle, hwidth, hlt.le⟩
    · exact ih hspan

/-! ## 2. What a scan sees -/

/-- The accounts that events with a value name. -/
def recipientsOf (events : List (Address × U256)) : Finset Address :=
  ((events.filter fun e => e.2 ≠ 0).map Prod.fst).toFinset

theorem mem_recipientsOf {events : List (Address × U256)} {a : Address} :
    a ∈ recipientsOf events ↔ ∃ amount, (a, amount) ∈ events ∧ amount ≠ 0 := by
  simp [recipientsOf]

theorem recipientsOf_append (xs ys : List (Address × U256)) :
    recipientsOf (xs ++ ys) = recipientsOf xs ∪ recipientsOf ys := by
  simp [recipientsOf, List.filter_append]

theorem recipientsOf_perm {xs ys : List (Address × U256)} (h : xs.Perm ys) :
    recipientsOf xs = recipientsOf ys := by
  ext a
  rw [mem_recipientsOf, mem_recipientsOf]
  exact exists_congr fun amount => by rw [h.mem_iff]

/-- One chunk's events settle the lookup, or add their recipients. -/
theorem collectRecipients_eq (candidate : Address) (events : List (Address × U256))
    (recipients : Finset Address) :
    collectRecipients candidate events recipients =
      if candidate ∈ recipientsOf events then none else some (recipients ∪ recipientsOf events) := by
  induction events generalizing recipients with
  | nil => simp [collectRecipients, recipientsOf]
  | cons e events ih =>
    obtain ⟨target, amount⟩ := e
    have hcons : recipientsOf ((target, amount) :: events) =
        if amount = 0 then recipientsOf events else insert target (recipientsOf events) := by
      by_cases hzero : amount = 0 <;> simp [recipientsOf, hzero]
    rw [collectRecipients, hcons]
    by_cases hzero : amount = 0
    · rw [if_pos hzero, if_pos hzero, ih]
    · rw [if_neg hzero, if_neg hzero]
      by_cases heq : target = candidate
      · rw [if_pos heq, if_pos (by rw [heq]; exact Finset.mem_insert_self _ _)]
      · simp only [if_neg heq, ih, Finset.mem_insert, Ne.symm heq, false_or, Finset.insert_union,
          Finset.union_insert]

/-- The logs of a token that name a Safe first, block by block. -/
abbrev History : Type := Address → Address → Nat → List LogData

/-- The query for one span. -/
def spanFilter (token safe : Address) (span : Nat × Nat) : Filter :=
  ⟨token, [transferSignatureHash, approvalSignatureHash], safe, span.1, span.2⟩

/-- An answer to a query: the history's logs of the span, in some order. -/
def Answers (history : History) (token safe : Address) (span : Nat × Nat) (logs : List LogData) :
    Prop :=
  logs.Perm ((blocksOf span).flatMap (history token safe))

/-- The provider answers every query from the history. -/
def Serves (history : History) (getLogs : Filter → Option (List LogData)) : Prop :=
  ∀ token safe span, ∃ logs, getLogs (spanFilter token safe span) = some logs ∧
    Answers history token safe span logs

/-- The provider answers from the history, or fails, query by query. -/
def ServesPartly (history : History) (getLogs : Filter → Option (List LogData)) : Prop :=
  ∀ token safe span logs, getLogs (spanFilter token safe span) = some logs →
    Answers history token safe span logs

theorem Serves.partly {history : History} {getLogs : Filter → Option (List LogData)}
    (h : Serves history getLogs) : ServesPartly history getLogs := by
  intro token safe span logs hlogs
  obtain ⟨logs', hlogs', hanswer⟩ := h token safe span
  rw [hlogs, Option.some.injEq] at hlogs'
  rw [hlogs']
  exact hanswer

section
variable {E : Services} {history : History} {token safe candidate : Address}

/-- The recipients the history has in some blocks. -/
def Services.recipientsIn (E : Services) (history : History) (token safe : Address)
    (blocks : List Nat) : Finset Address :=
  recipientsOf ((blocks.flatMap (history token safe)).filterMap E.decodeTargetAndAmount)

theorem recipientsIn_append (xs ys : List Nat) :
    E.recipientsIn history token safe (xs ++ ys) =
      E.recipientsIn history token safe xs ∪ E.recipientsIn history token safe ys := by
  rw [Services.recipientsIn, List.flatMap_append, List.filterMap_append, recipientsOf_append]
  rfl

theorem Answers.recipients {span : Nat × Nat} {logs : List LogData}
    (h : Answers history token safe span logs) :
    recipientsOf (logs.filterMap E.decodeTargetAndAmount) =
      E.recipientsIn history token safe (blocksOf span) :=
  recipientsOf_perm (h.filterMap _)

/-- What a history says about a candidate. -/
def lookupOf (candidate : Address) (recipients : Finset Address) : RecipientLookup :=
  if candidate ∈ recipients then .exactMatch else .noExactMatch recipients true

/-- A scan of some spans, with recipients already seen, none of them the candidate: it sees what the
history has there; or it is cut short, which it then says, unless the history has the candidate. -/
theorem scanChunks_cases (token safe candidate : Address)
    (hserves : ServesPartly history E.getLogs) (spans : List (Nat × Nat)) (recipients : Finset Address) (hnot : candidate ∉ recipients) :
    E.scanChunks token safe candidate spans recipients =
        some (lookupOf candidate
          (recipients ∪ E.recipientsIn history token safe (spans.flatMap blocksOf))) ∨
      (∃ span ∈ spans, E.getLogs (spanFilter token safe span) = none) ∧
        (E.scanChunks token safe candidate spans recipients = none ∨
          ∃ seen, E.scanChunks token safe candidate spans recipients =
            some (.noExactMatch seen false)) := by
  induction spans generalizing recipients with
  | nil =>
    left
    have hnone : E.recipientsIn history token safe [] = ∅ := rfl
    rw [Services.scanChunks, List.flatMap_nil, hnone, Finset.union_empty, lookupOf, if_neg hnot]
  | cons span spans ih =>
    obtain ⟨chunkFrom, chunkTo⟩ := span
    rw [Services.scanChunks, List.flatMap_cons, recipientsIn_append, ← Finset.union_assoc]
    cases hlogs : E.getLogs ⟨token, [transferSignatureHash, approvalSignatureHash], safe, chunkFrom,
        chunkTo⟩ with
    | none =>
      right
      refine ⟨⟨(chunkFrom, chunkTo), by simp, hlogs⟩, ?_⟩
      dsimp only
      split
      · exact .inr ⟨recipients, rfl⟩
      · exact .inl rfl
    | some logs =>
      have hanswer := hserves token safe (chunkFrom, chunkTo) logs hlogs
      dsimp only
      rw [collectRecipients_eq, hanswer.recipients]
      by_cases hmem : candidate ∈ E.recipientsIn history token safe (blocksOf (chunkFrom, chunkTo))
      · left
        rw [if_pos hmem, lookupOf, if_pos]
        exact Finset.mem_union_left _ (Finset.mem_union_right _ hmem)
      · rw [if_neg hmem]
        have hnot' : candidate ∉
            recipients ∪ E.recipientsIn history token safe (blocksOf (chunkFrom, chunkTo)) := by
          rw [Finset.mem_union, not_or]
          exact ⟨hnot, hmem⟩
        rcases ih _ hnot' with h | ⟨⟨span, hspan, hfail⟩, h⟩
        · exact .inl h
        · exact .inr ⟨⟨span, List.mem_cons_of_mem _ hspan, hfail⟩, h⟩

/-- The blocks that are looked at. -/
def Services.lookback (E : Services) (block : Fin (2 ^ 64)) : List Nat :=
  blocksOf (block.val - E.lookbackBlocks, block.val)

/-- What the checker decides, given what the lookup says. -/
def verdictOf (candidate : Address) (kind : TargetKind) : Option RecipientLookup → Verdict
  | some .exactMatch => .secure
  | some (.noExactMatch recipients complete) =>
    if ¬ ∃ r ∈ recipients, isLookalike r candidate = true then .abstain
    else if ¬ complete then .abstain
    else .insecure kind.rule
  | none => .abstain

/-- The checker looks the candidate up, on its provider's chain. -/
theorem addressPoisoningChecker_eq (E : Services) (tx : SafeTransaction) (ctx : CheckContext) :
    E.addressPoisoningChecker tx ctx = match decodeTarget E.abi tx with
      | none => .abstain
      | some (candidate, kind) => if tx.chainId.val ≠ E.chainId.val then .abstain
        else verdictOf candidate kind (E.establishedRecipients tx.to tx.safe candidate ctx.block) := by
  unfold Services.addressPoisoningChecker
  cases decodeTarget E.abi tx with
  | none => rfl
  | some target =>
    dsimp only
    split
    · rfl
    · cases E.establishedRecipients tx.to tx.safe target.1 ctx.block with
      | none => rfl
      | some lookup => cases lookup <;> rfl

/-- **A scan without failures sees the history**, whatever the spans. -/
theorem establishedRecipients_eq (hserves : Serves history E.getLogs) (block : Fin (2 ^ 64)) :
    E.establishedRecipients token safe candidate block = some (lookupOf candidate
      (E.recipientsIn history token safe (E.lookback block))) := by
  have htiles := tiles_blockChunks (block.val - E.lookbackBlocks) block
    (E.maxBlockRange.getD u64Max) (Nat.sub_le _ _)
  rcases scanChunks_cases token safe candidate hserves.partly
    (blockChunks (block.val - E.lookbackBlocks) block (E.maxBlockRange.getD u64Max)) ∅
    (Finset.notMem_empty _) with h | ⟨⟨span, -, hfail⟩, -⟩
  · rw [Services.establishedRecipients, h, htiles.blocks, Finset.empty_union]
    rfl
  · obtain ⟨logs, hlogs, -⟩ := hserves token safe span
    exact absurd (hfail.symm.trans hlogs) (by simp)

/-- **A scan with failures** sees the history, or cannot deny. -/
theorem establishedRecipients_partly (hserves : ServesPartly history E.getLogs)
    (token safe candidate : Address) (block : Fin (2 ^ 64)) :
    E.establishedRecipients token safe candidate block = some (lookupOf candidate
        (E.recipientsIn history token safe (E.lookback block))) ∨
      E.establishedRecipients token safe candidate block = none ∨
        ∃ seen, E.establishedRecipients token safe candidate block =
          some (.noExactMatch seen false) := by
  have htiles := tiles_blockChunks (block.val - E.lookbackBlocks) block
    (E.maxBlockRange.getD u64Max) (Nat.sub_le _ _)
  rcases scanChunks_cases token safe candidate hserves
    (blockChunks (block.val - E.lookbackBlocks) block (E.maxBlockRange.getD u64Max)) ∅
    (Finset.notMem_empty _) with h | ⟨-, h⟩
  · left
    rw [Services.establishedRecipients, h, htiles.blocks, Finset.empty_union]
    rfl
  · exact .inr h

end

/-! ## 3. The verdict and the provider -/

/-- The services with another provider: its answers, and the widest span it allows. -/
def Services.withProvider (E : Services) (getLogs : Filter → Option (List LogData))
    (maxBlockRange : Option Nat) : Services :=
  { E with getLogs := getLogs, maxBlockRange := maxBlockRange }

/-- What the scan owes, for every history, however the provider answers. -/
structure ScanSound (E : Services) (tx : SafeTransaction) (ctx : CheckContext) : Prop where
  /-- The spans of a range tile it: they have its blocks, in order and each once, and each is within
  the limit and inside the range. -/
  spans : ∀ (start : Nat) (last : Fin (2 ^ 64)) (width : Nat), start ≤ last.val →
    (blockChunks start last width).flatMap blocksOf = blocksOf (start, last.val) ∧
      ∀ span ∈ blockChunks start last width,
        span.1 ≤ span.2 ∧ span.2 - span.1 ≤ width ∧ span.2 ≤ last.val
  /-- Without failures the verdict is the history's. -/
  complete : ∀ history getLogs getLogs' width width', Serves history getLogs →
    Serves history getLogs' →
      (E.withProvider getLogs width).addressPoisoningChecker tx ctx =
        (E.withProvider getLogs' width').addressPoisoningChecker tx ctx
  /-- With failures it is an abstention, or the verdict of the complete scan. -/
  partly : ∀ history getLogs getLogs' width width', ServesPartly history getLogs →
    Serves history getLogs' →
      (E.withProvider getLogs width).addressPoisoningChecker tx ctx = .abstain ∨
        (E.withProvider getLogs width).addressPoisoningChecker tx ctx =
          (E.withProvider getLogs' width').addressPoisoningChecker tx ctx

/-- A lookup that says it is incomplete decides nothing. -/
theorem verdictOf_incomplete (candidate : Address) (kind : TargetKind) (seen : Finset Address) :
    verdictOf candidate kind (some (.noExactMatch seen false)) = .abstain := by
  rw [verdictOf]
  split
  · rfl
  · rw [if_pos (by decide)]

theorem addressPoisoningChecker_withProvider (E : Services) (tx : SafeTransaction)
    (ctx : CheckContext) (getLogs : Filter → Option (List LogData)) (width : Option Nat) :
    (E.withProvider getLogs width).addressPoisoningChecker tx ctx =
      match decodeTarget E.abi tx with
      | none => .abstain
      | some (candidate, kind) => if tx.chainId.val ≠ E.chainId.val then .abstain
        else verdictOf candidate kind ((E.withProvider getLogs width).establishedRecipients tx.to
          tx.safe candidate ctx.block) :=
  addressPoisoningChecker_eq (E.withProvider getLogs width) tx ctx

/-- A provider that fails on some queries costs the verdict at most. -/
theorem addressPoisoningChecker_partly (E : Services) (tx : SafeTransaction) (ctx : CheckContext)
    {history : History} {getLogs getLogs' : Filter → Option (List LogData)} (width width' : Option Nat)
    (hpartly : ServesPartly history getLogs) (hserves : Serves history getLogs') :
    (E.withProvider getLogs width).addressPoisoningChecker tx ctx = .abstain ∨
      (E.withProvider getLogs width).addressPoisoningChecker tx ctx =
        (E.withProvider getLogs' width').addressPoisoningChecker tx ctx := by
  rw [addressPoisoningChecker_withProvider, addressPoisoningChecker_withProvider]
  cases decodeTarget E.abi tx with
  | none => exact .inl rfl
  | some target =>
    dsimp only
    by_cases hchain : tx.chainId.val ≠ E.chainId.val
    · exact .inl (if_pos hchain)
    · rw [if_neg hchain, if_neg hchain,
        establishedRecipients_eq (E := E.withProvider getLogs' width') hserves]
      rcases establishedRecipients_partly (E := E.withProvider getLogs width) hpartly tx.to
        tx.safe target.1 ctx.block with h | h | ⟨seen, h⟩
      · rw [h]
        exact .inr rfl
      · rw [h]
        exact .inl rfl
      · rw [h]
        exact .inl (verdictOf_incomplete _ _ _)

/-- **The scan is sound under chunking and failures.** -/
theorem scan_sound (E : Services) (tx : SafeTransaction) (ctx : CheckContext) :
    ScanSound E tx ctx := by
  refine ⟨fun start last width h => ?_, ?_, ?_⟩
  · have htiles := tiles_blockChunks start last width h
    exact ⟨htiles.blocks, fun span hspan => htiles.span hspan⟩
  · intro history getLogs getLogs' width width' h h'
    rw [addressPoisoningChecker_withProvider, addressPoisoningChecker_withProvider]
    have hlookup : ∀ token safe candidate,
        (E.withProvider getLogs width).establishedRecipients token safe candidate ctx.block =
          (E.withProvider getLogs' width').establishedRecipients token safe candidate ctx.block := by
      intro token safe candidate
      rw [establishedRecipients_eq (E := E.withProvider getLogs width) h,
        establishedRecipients_eq (E := E.withProvider getLogs' width') h']
      rfl
    simp only [hlookup]
  · intro history getLogs getLogs' width width' h h'
    exact addressPoisoningChecker_partly E tx ctx width width' h h'

/-! ## 4. The refund as a transfer -/

section
variable {E : Services} {tx transfer : SafeTransaction} {ctx : CheckContext}

end

end Engine

end Safenet
