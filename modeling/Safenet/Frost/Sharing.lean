/-
# The exchange of secret shares

`frost/keygen.rs` and `frost/ecdh.rs`: a dealer encrypts one value of its polynomial for every
other participant and publishes the list by ascending address, its own left out; a recipient looks
up its place in that list, decrypts with the secret it shares with the dealer, and checks the value
against the dealer's commitment.

`Dealing` adds to `Curve` what the DKG rounds of the crate compute.  With it the two sides meet:
a dealt share is accepted and is the dealer's value at the recipient (`verify_dealt`), an accepted
share is that value whoever encrypted it (`verifyEncrypted_sound`), and verified shares from
everyone make a value of one polynomial, whose constant term is the group key (`finalize_ok`,
`point_groupKey`).
-/
import Safenet.Frost.Selection

namespace Safenet

open Secp256k1

namespace Frost

/-! ## 1. What the rounds compute -/

section Types

variable (E : Crates)

/-- The first packages of some participants. -/
abbrev Round1Packages : Type := BTreeMap E.Identifier (Round1Package E.toCrateTypes)

/-- The second packages of some participants. -/
abbrev Round2Packages : Type := BTreeMap E.Identifier (Round2Package E.toCrateTypes)

/-- **The key-generation rounds of the crate**, and the canonical encodings they rely on. -/
structure Dealing extends Curve E where
  scalar_injective : Function.Injective scalar
  point_injective : Function.Injective point
  decodeScalar_encodeScalar : ∀ s, E.decodeScalar (E.encodeScalar s) = some s
  decodePoint_encodePoint : ∀ e, e ≠ E.identity → E.decodePoint (E.encodePoint e) = some e
  /-- `SecretShare::verify`: the share is the committed polynomial's value. -/
  verifyShare_iff : ∀ i s commitment, E.verifyShare i s commitment = .ok () ↔
    mulG (scalar s) = evaluateVss (identifier i) (commitment.map point)
  /-- `sum_commitments` of commitments of one length. -/
  sumCommitments_ok : ∀ commitments t, commitments ≠ [] → (∀ c ∈ commitments, c.length = t) →
    ∃ sum, E.sumCommitments commitments = .ok sum ∧ sum.length = t ∧
      ∀ k, (sum.map point).getD k 0 = (commitments.map fun c => (c.map point).getD k 0).sum
  verifyingKey_cons : ∀ c commitment,
    E.verifyingKeyFromCommitment (c :: commitment) = .ok c
  /-- `part2` succeeds with a package of every peer, each with a valid proof. -/
  part2_ok : ∀ (secret : Round1SecretPackage E.toCrateTypes) (peers : Round1Packages E),
    peers.size + 1 = secret.maxSigners →
    (∀ (i : E.Identifier) package, peers[i]? = some package →
      package.commitment.length = secret.minSigners ∧
        E.verifyProofOfKnowledge i package.commitment package.proofOfKnowledge = .ok ()) →
    ∃ r, E.part2 secret peers = .ok r
  /-- What it returns: one's own value, and a value for every peer. -/
  part2_spec : ∀ (secret : Round1SecretPackage E.toCrateTypes) (peers : Round1Packages E)
    (own : Round2SecretPackage E.toCrateTypes) (packages : Round2Packages E),
    E.part2 secret peers = .ok (own, packages) →
    (own.identifier = secret.identifier ∧ own.commitment = secret.commitment ∧
      own.minSigners = secret.minSigners ∧ own.maxSigners = secret.maxSigners) ∧
    (peers.size + 1 = secret.maxSigners ∧
      ∀ (i : E.Identifier) package, peers[i]? = some package →
        package.commitment.length = secret.minSigners) ∧
    scalar own.secretShare =
      evaluatePolynomial (identifier secret.identifier) (secret.coefficients.map scalar) ∧
    (∀ i : E.Identifier, (packages[i]?).isSome = (peers[i]?).isSome) ∧
    ∀ (i : E.Identifier) package, packages[i]? = some package → scalar package.signingShare =
      evaluatePolynomial (identifier i) (secret.coefficients.map scalar)
  /-- `part3` succeeds with a verified share of every peer, and adds them up. -/
  part3_ok : ∀ (secret : Round2SecretPackage E.toCrateTypes) (round1 : Round1Packages E)
    (round2 : Round2Packages E), round1.size + 1 = secret.maxSigners →
    (∀ i : E.Identifier, (round2[i]?).isSome = (round1[i]?).isSome) →
    (∀ (i : E.Identifier) package share, round1[i]? = some package → round2[i]? = some share →
      E.verifyShare secret.identifier share.signingShare package.commitment = .ok ()) →
    secret.commitment ≠ [] →
    (∀ (i : E.Identifier) package, round1[i]? = some package →
      package.commitment.length = secret.commitment.length) →
    ∃ key sum, E.part3 secret round1 round2 = .ok key ∧ key.identifier = secret.identifier ∧
      key.minSigners = secret.minSigners ∧
      scalar key.signingShare =
        scalar secret.secretShare + (round2.values.map fun s => scalar s.signingShare).sum ∧
      point key.verifyingShare = mulG (scalar key.signingShare) ∧
      E.sumCommitments (secret.commitment :: round1.values.map (·.commitment)) = .ok sum ∧
      E.verifyingKeyFromCommitment sum = .ok key.verifyingKey

end Types

variable {E : Crates}

namespace Dealing

/-- The secret that two encryption keys share does not depend on whose is whose. -/
theorem mul_mul_generator (F : Dealing E) (a b : E.Scalar) :
    E.mul a (E.mul b E.generator) = E.mul b (E.mul a E.generator) := by
  refine F.point_injective ?_
  rw [F.point_mul, F.point_mul_generator, F.point_mul, F.point_mul_generator, ← mulG_mul, ← mulG_mul,
    mul_comm]

/-- The order of the commitments does not matter. -/
theorem sumCommitments_perm (F : Dealing E) {l l' : List (VssCommitment E.toCrateTypes)} {t : Nat}
    (hperm : l.Perm l') (hne : l ≠ []) (hlength : ∀ c ∈ l, c.length = t) :
    E.sumCommitments l = E.sumCommitments l' := by
  have hne' : l' ≠ [] := fun hnil => hne (List.perm_nil.mp (hnil ▸ hperm))
  obtain ⟨sum, hok, hsum, hpoint⟩ := F.sumCommitments_ok l t hne hlength
  obtain ⟨sum', hok', hsum', hpoint'⟩ :=
    F.sumCommitments_ok l' t hne' fun c hc => hlength c (hperm.mem_iff.mpr hc)
  have heq : sum.map F.point = sum'.map F.point := by
    refine List.ext_getElem (by rw [List.length_map, List.length_map, hsum, hsum'])
      fun k hk hk' => ?_
    rw [← List.getD_eq_getElem _ 0 hk, ← List.getD_eq_getElem _ 0 hk', hpoint, hpoint',
      (hperm.map _).sum_eq]
  rw [hok, hok', List.map_injective_iff.mpr F.point_injective heq]

/-- The ABI form of an element decodes to it. -/
theorem frostPoint_solidityPoint (F : Dealing E) (e : E.Element) :
    frostPoint E (solidityPoint E e) = .ok e := by
  unfold frostPoint solidityPoint
  by_cases he : e = E.identity
  · rw [if_pos he, if_pos ⟨rfl, rfl⟩, he]
  · have hne : ¬((E.encodePoint e).x = 0 ∧ (E.encodePoint e).y = 0) := by
      rw [F.encodePoint_eq e he]
      rintro ⟨hx, hy⟩
      have hzero : ofGroup (F.point e) = ofGroup 0 := (Point.mk.injEq ..).mpr ⟨hx, hy⟩
      exact he ((F.point_eq_zero_iff e).mp (ofGroup_injective hzero))
    rw [if_neg he, if_neg hne, F.decodePoint_encodePoint e he]

end Dealing

/-! ## 2. One's own package and the peers' -/

/-- The participants of a map have different identifiers. -/
def DistinctIds {α : Type} (E : Crates) (items : BTreeMap Address α) : Prop :=
  (items.toList.map fun e => E.derive e.1).Nodup

section Peers

variable {α β : Type} {items : BTreeMap Address α} {select : α → β} {a b : Address} {x y : α}

theorem DistinctIds.eq (h : DistinctIds E items) (ha : items[a]? = some x) (hb : items[b]? = some y)
    (hab : E.derive a = E.derive b) : a = b := by
  have hma := (BTreeMap.mem_toList_iff items a x).mpr ha
  have hmb := (BTreeMap.mem_toList_iff items b y).mpr hb
  exact congrArg Prod.fst (List.inj_on_of_nodup_map h hma hmb hab)

/-- The packages of everyone by identifier. -/
def packagesById (E : Crates) (items : BTreeMap Address α) (select : α → β) :
    BTreeMap E.Identifier β :=
  BTreeMap.record (fun e : Address × α => E.derive e.1) (fun e => select e.2) items.toList

theorem get_packagesById (h : DistinctIds E items) (i : E.Identifier) (p : β) :
    (packagesById E items select)[i]? = some p ↔
      ∃ a x, items[a]? = some x ∧ E.derive a = i ∧ select x = p := by
  rw [packagesById, BTreeMap.record_get h]
  constructor
  · rintro ⟨⟨a, x⟩, hmem, hi, hp⟩
    exact ⟨a, x, (BTreeMap.mem_toList_iff items a x).mp hmem, hi, hp⟩
  · rintro ⟨a, x, ha, hi, hp⟩
    exact ⟨(a, x), (BTreeMap.mem_toList_iff items a x).mpr ha, hi, hp⟩

theorem peerPackages_eq_ok {me : E.Identifier} {peers : BTreeMap E.Identifier β} {mine : β} :
    peerPackages E me items select = .ok (peers, mine) ↔
      (packagesById E items select)[me]? = some mine ∧
        (packagesById E items select).erase me = peers := by
  have hall : items.toList.foldl (fun t e => t.insert (E.derive e.1) (select e.2)) ∅ =
      packagesById E items select := rfl
  dsimp only [peerPackages]
  rw [hall]
  cases (packagesById E items select)[me]? with
  | none => exact iff_of_false (fun h => by cases h) fun h => by cases h.1
  | some x =>
    rw [Except.ok.injEq, Prod.mk.injEq, Option.some.injEq]
    exact And.comm

/-- A participant finds its own package, and the other participants' under their identifiers. -/
theorem peerPackages_ok (select : α → β) (h : DistinctIds E items) (ha : items[a]? = some x) :
    ∃ peers, peerPackages E (E.derive a) items select = .ok (peers, select x) ∧
      (∀ i p, peers[i]? = some p ↔
        ∃ b y, items[b]? = some y ∧ b ≠ a ∧ E.derive b = i ∧ select y = p) ∧
      peers.size + 1 = items.size ∧
      (select x :: peers.values).Perm (items.values.map select) := by
  set all := packagesById E items select with hall
  have hmine : all[E.derive a]? = some (select x) := (get_packagesById h _ _).mpr ⟨a, x, ha, rfl, rfl⟩
  have hlist : ((E.derive a, select x) :: (all.erase (E.derive a)).toList).Perm
      (items.toList.map fun e => (E.derive e.1, select e.2)) :=
    (BTreeMap.toList_perm_erase hmine).symm.trans (BTreeMap.toList_record h)
  refine ⟨all.erase (E.derive a), ?_, fun i p => ?_, ?_, ?_⟩
  · exact peerPackages_eq_ok.mpr ⟨hmine, rfl⟩
  · rw [BTreeMap.get_erase]
    split
    · next hi =>
      refine iff_of_false (fun hnone => nomatch hnone) ?_
      rintro ⟨b, y, hb, hne, hbi, -⟩
      exact hne (h.eq hb ha (hbi.trans hi))
    · next hi =>
      rw [get_packagesById h]
      constructor
      · rintro ⟨b, y, hb, hbi, hp⟩
        exact ⟨b, y, hb, fun hba => hi (hbi.symm.trans (congrArg E.derive hba)), hbi, hp⟩
      · rintro ⟨b, y, hb, -, hbi, hp⟩
        exact ⟨b, y, hb, hbi, hp⟩
  · have hlength := hlist.length_eq
    rwa [List.length_cons, List.length_map, Std.ExtTreeMap.length_toList,
      Std.ExtTreeMap.length_toList] at hlength
  · have hvalues := hlist.map Prod.snd
    rw [List.map_cons, List.map_map, ← BTreeMap.values_eq] at hvalues
    rwa [BTreeMap.values_eq items, List.map_map]

end Peers

/-! ## 3. Dealing -/

/-- The encryption of a peer's value. -/
def encryptFor (encryptionKey : E.Scalar) (packages : Round2Packages E)
    (e : Address × VerifiedCommitment E) : Except FrostError U256 :=
  match packages[E.derive e.1]? with
  | some package => .ok (ecdh E encryptionKey e.2.encryptionPublicKey
      (E.encodeScalar package.signingShare))
  | none => .error .unknownIdentifier

theorem groupCommitments_eq_ok {commitments : BTreeMap Address (VerifiedCommitment E)}
    {g : GroupCommitments E} :
    groupCommitments E commitments = .ok g ↔ g.commitments = commitments ∧
      groupCommitment E commitments = .ok g.groupCommitment ∧
      E.verifyingKeyFromCommitment g.groupCommitment = .ok g.verifyingKey := by
  unfold groupCommitments errUnexpected
  simp only [Except.mapError_eq_ok, Except.bind_eq_ok, Except.pure_eq_ok]
  constructor
  · rintro ⟨sum, hsum, key, hkey, rfl⟩
    exact ⟨rfl, hsum, hkey⟩
  · rintro ⟨rfl, hsum, hkey⟩
    exact ⟨_, hsum, _, hkey, rfl⟩

theorem generateSecretShares_eq_ok {secrets : Secrets E}
    {commitments : BTreeMap Address (VerifiedCommitment E)} {s : SharingState E}
    {share : KeyGenSecretShare} :
    generateSecretShares E secrets commitments = .ok (s, share) ↔
      ∃ peers mine own packages sum key f,
        peerPackages E secrets.secretPackage.identifier commitments (·.package) =
          .ok (peers, mine) ∧
        E.part2 secrets.secretPackage peers = .ok (own, packages) ∧
        mine.commitment = own.commitment ∧ groupCommitment E commitments = .ok sum ∧
        E.verifyingKeyFromCommitment sum = .ok key ∧
        (commitments.toList.filter fun e => E.derive e.1 ≠ own.identifier).mapM
          (encryptFor secrets.encryptionKey packages) = .ok f ∧
        s = ⟨secrets.encryptionKey, own, packages, ⟨commitments, sum, key⟩⟩ ∧
        share = ⟨solidityPoint E
          (E.verifyingShareFromCommitment secrets.secretPackage.identifier sum), f⟩ := by
  unfold generateSecretShares
  simp only [Except.bind_eq_ok, errUnexpected, Except.mapError_eq_ok]
  constructor
  · rintro ⟨⟨peers, mine⟩, hpeers, ⟨own, packages⟩, hown, h⟩
    split at h
    · rw [Except.bind_eq_ok] at h
      obtain ⟨_, hthrow, -⟩ := h
      exact absurd hthrow Except.throw_ne_ok
    · next hcommitment =>
      simp only [Except.bind_eq_ok, Except.pure_eq_ok, Prod.mk.injEq] at h
      obtain ⟨sum, hsum, key, hkey, f, hf, hs, hshare⟩ := h
      exact ⟨peers, mine, own, packages, sum, key, f, hpeers, hown, not_not.mp hcommitment, hsum,
        hkey, hf, hs.symm, hshare.symm⟩
  · rintro ⟨peers, mine, own, packages, sum, key, f, hpeers, hown, hcommitment, hsum, hkey, hf, hs,
      hshare⟩
    refine ⟨_, hpeers, _, hown, ?_⟩
    rw [if_neg (not_not.mpr hcommitment)]
    simp only [Except.bind_eq_ok, Except.pure_eq_ok, Prod.mk.injEq]
    exact ⟨sum, hsum, key, hkey, f, hf, hs.symm, hshare.symm⟩

/-- Encrypting with the one key and decrypting with the other. -/
theorem ecdh_ecdh (F : Dealing E) (a b : E.Scalar) (msg : U256) :
    ecdh E a (E.mul b E.generator) (ecdh E b (E.mul a E.generator) msg) = msg := by
  have hlt : ∀ x : U256, msg.val ^^^ x.val < 2 ^ 256 := fun x => Nat.xor_lt_two_pow msg.isLt x.isLt
  unfold ecdh
  rw [F.mul_mul_generator a b]
  refine Fin.ext ?_
  rw [Fin.val_ofNat, Fin.val_ofNat, Nat.mod_eq_of_lt (hlt _), Nat.xor_assoc, Nat.xor_self,
    Nat.xor_zero, Nat.mod_eq_of_lt msg.isLt]

/-- What returns along a list returns place by place. -/
theorem getElem?_of_mapM {ε α β : Type} {f : α → Except ε β} {xs : List α} {ys : List β}
    (h : xs.mapM f = .ok ys) {k : Nat} {x : α} (hx : xs[k]? = some x) :
    ∃ y, ys[k]? = some y ∧ f x = .ok y := by
  induction xs generalizing ys k with
  | nil => cases hx
  | cons x' xs ih =>
    simp only [List.mapM_cons, Except.bind_eq_ok, Except.pure_eq_ok] at h
    obtain ⟨y, hy, ys, hys, rfl⟩ := h
    cases k with
    | zero =>
      rw [List.getElem?_cons_zero, Option.some.injEq] at hx
      exact ⟨y, rfl, hx ▸ hy⟩
    | succ k => exact ih hys hx

/-- A commitment to a polynomial. -/
def CommitsTo (F : Dealing E) (commitment : VssCommitment E.toCrateTypes)
    (coefficients : List (ZMod N)) : Prop := commitment.map F.point = coefficients.map mulG

/-- Every commitment is a commitment to some polynomial. -/
theorem exists_commitsTo (F : Dealing E) (commitment : VssCommitment E.toCrateTypes) :
    ∃ coefficients, CommitsTo F commitment coefficients := by
  have hsurj : Function.Surjective mulG :=
    ((Nat.bijective_iff_injective_and_card mulG).mpr
      ⟨mulG_injective, by rw [card_curvePoint, Nat.card_zmod]⟩).2
  obtain ⟨coefficients, h⟩ := hsurj.list_map (commitment.map F.point)
  exact ⟨coefficients, h.symm⟩

/-- ... and to one only. -/
theorem CommitsTo.eq {F : Dealing E} {commitment : VssCommitment E.toCrateTypes}
    {p q : List (ZMod N)} (hp : CommitsTo F commitment p) (hq : CommitsTo F commitment q) : p = q :=
  List.map_injective_iff.mpr mulG_injective (hp.symm.trans hq)

theorem CommitsTo.length {F : Dealing E} {commitment : VssCommitment E.toCrateTypes}
    {p : List (ZMod N)} (h : CommitsTo F commitment p) : commitment.length = p.length := by
  have hlength := congrArg List.length h
  rwa [List.length_map, List.length_map] at hlength

/-- The value of a polynomial at a participant. -/
def valueAt (F : Dealing E) (coefficients : List (ZMod N)) (a : Address) : ZMod N :=
  evaluatePolynomial (F.identifier (E.derive a)) coefficients

/-- The polynomial of some secrets. -/
def Secrets.polynomial (F : Dealing E) (secrets : Secrets E) : List (ZMod N) :=
  secrets.secretPackage.coefficients.map F.scalar

/-- Secrets as they are sampled: a commitment to a polynomial of as many coefficients as there are
signers at least. -/
structure Sampled (F : Dealing E) (a : Address) (secrets : Secrets E) : Prop where
  identifier : secrets.secretPackage.identifier = E.derive a
  committed : CommitsTo F secrets.secretPackage.commitment (secrets.polynomial F)
  length : secrets.secretPackage.coefficients.length = secrets.secretPackage.minSigners
  positive : 0 < secrets.secretPackage.minSigners

/-- A participant whose sampled secrets are the ones it committed to. -/
structure Honest (F : Dealing E) (commitments : BTreeMap Address (VerifiedCommitment E))
    (a : Address) (secrets : Secrets E) : Prop extends Sampled F a secrets where
  recorded : commitments[a]? = some ⟨E.mul secrets.encryptionKey E.generator,
    ⟨secrets.secretPackage.commitment, secrets.proofOfKnowledge⟩⟩

section Exchange

variable {F : Dealing E} {commitments : BTreeMap Address (VerifiedCommitment E)}
  {i j : Address} {secrets secrets' : Secrets E} {s s' : SharingState E}
  {share share' : KeyGenSecretShare}

/-- What a participant holds after dealing. -/
structure Dealt (F : Dealing E) (commitments : BTreeMap Address (VerifiedCommitment E)) (a : Address)
    (secrets : Secrets E) (s : SharingState E) : Prop where
  own : ∃ c, commitments[a]? = some c ∧ c.package.commitment = secrets.secretPackage.commitment
  encryptionKey : s.encryptionKey = secrets.encryptionKey
  identifier : s.secretPackage.identifier = E.derive a
  commitment : s.secretPackage.commitment = secrets.secretPackage.commitment
  secretShare : F.scalar s.secretPackage.secretShare = valueAt F (secrets.polynomial F) a
  packages : ∀ b, (commitments[b]?).isSome → b ≠ a →
    ∃ package, s.peerPackages[E.derive b]? = some package ∧
      F.scalar package.signingShare = valueAt F (secrets.polynomial F) b
  group : s.groupCommitments.commitments = commitments
  minSigners : s.secretPackage.minSigners = secrets.secretPackage.minSigners
  maxSigners : s.secretPackage.maxSigners = commitments.size
  lengths : ∀ (b : Address) (c : VerifiedCommitment E), commitments[b]? = some c →
    c.package.commitment.length = secrets.secretPackage.minSigners

theorem Sampled.dealt (hids : DistinctIds E commitments) (h : Sampled F i secrets)
    (hi : (commitments[i]?).isSome)
    (hdeal : generateSecretShares E secrets commitments = .ok (s, share)) :
    Dealt F commitments i secrets s := by
  obtain ⟨ci, hci⟩ := Option.isSome_iff_exists.mp hi
  obtain ⟨peers, mine, own, packages, sum, key, f, hpeers, hown, hmine, -, -, -, rfl, -⟩ :=
    generateSecretShares_eq_ok.mp hdeal
  obtain ⟨⟨hid, hcommitment, hmin, hmax⟩, ⟨hcount, hlengths⟩, hshare, hsome, hvalue⟩ :=
    F.part2_spec _ _ _ _ hown
  obtain ⟨peers', hpeers', hget, hsize, -⟩ := peerPackages_ok (·.package) hids hci
  rw [h.identifier, hpeers', Except.ok.injEq, Prod.mk.injEq] at hpeers
  obtain ⟨rfl, rfl⟩ := hpeers
  have hrecorded : ci.package.commitment = secrets.secretPackage.commitment :=
    hmine.trans hcommitment
  refine ⟨⟨ci, hci, hrecorded⟩, rfl, hid.trans h.identifier, hcommitment, ?_,
    fun b hb hne => ?_, rfl, hmin, hmax.trans (hcount.symm.trans hsize), fun b c hb => ?_⟩
  · rw [hshare, h.identifier]
    rfl
  · obtain ⟨c, hc⟩ := Option.isSome_iff_exists.mp hb
    have hpackage : (packages[E.derive b]?).isSome := by
      rw [hsome, (hget _ _).mpr ⟨b, c, hc, hne, rfl, rfl⟩]
      rfl
    obtain ⟨package, hpackage⟩ := Option.isSome_iff_exists.mp hpackage
    exact ⟨package, hpackage, hvalue _ _ hpackage⟩
  · by_cases hne : b = i
    · subst hne
      rw [hci, Option.some.injEq] at hb
      rw [← hb, hrecorded, h.committed.length, Secrets.polynomial, List.length_map]
      exact h.length
    · exact hlengths _ _ ((hget _ _).mpr ⟨b, c, hb, hne, rfl, rfl⟩)

theorem Honest.dealt (hids : DistinctIds E commitments) (h : Honest F commitments i secrets)
    (hdeal : generateSecretShares E secrets commitments = .ok (s, share)) :
    Dealt F commitments i secrets s :=
  h.toSampled.dealt hids (by rw [h.recorded]; rfl) hdeal

/-- The encrypted values: one for every other participant, by ascending address. -/
theorem Honest.encrypted (hids : DistinctIds E commitments) (h : Honest F commitments i secrets)
    (hdeal : generateSecretShares E secrets commitments = .ok (s, share)) :
    (commitments.toList.filter fun e => e.1 ≠ i).mapM
      (encryptFor secrets.encryptionKey s.peerPackages) = .ok share.f := by
  have hid := (h.dealt hids hdeal).identifier
  obtain ⟨peers, mine, own, packages, sum, key, f, -, -, -, -, -, hf, rfl, rfl⟩ :=
    generateSecretShares_eq_ok.mp hdeal
  have hfilter : (commitments.toList.filter fun e => e.1 ≠ i) =
      commitments.toList.filter fun e => E.derive e.1 ≠ own.identifier := by
    refine List.filter_congr fun e he => ?_
    have he' := (BTreeMap.mem_toList_iff commitments e.1 e.2).mp he
    have hiff : e.1 ≠ i ↔ E.derive e.1 ≠ own.identifier := by
      rw [show own.identifier = E.derive i from hid]
      exact not_congr ⟨congrArg E.derive, hids.eq he' h.recorded⟩
    simp only [hiff]
  rw [hfilter]
  exact hf

/-- **The place a recipient looks at is its own in the dealer's list.** -/
theorem place_of (hids : DistinctIds E commitments) {c : VerifiedCommitment E}
    (hj : commitments[j]? = some c) (hne : j ≠ i) :
    ∃ k, (commitments.keys.filter (· ≠ i)).findIdx? (fun a => E.derive a = E.derive j) = some k ∧
      (commitments.toList.filter fun e => e.1 ≠ i)[k]? = some (j, c) := by
  have hkeys : commitments.keys.filter (· ≠ i) =
      (commitments.toList.filter fun e => e.1 ≠ i).map Prod.fst := by
    rw [← Std.ExtTreeMap.map_fst_toList_eq_keys, List.filter_map]
    rfl
  set entries := commitments.toList.filter fun e => e.1 ≠ i with hentries
  have hmem : (j, c) ∈ entries :=
    List.mem_filter.mpr ⟨(BTreeMap.mem_toList_iff _ _ _).mpr hj, decide_eq_true hne⟩
  have hsome : ((entries.map Prod.fst).findIdx? fun a => E.derive a = E.derive j).isSome := by
    rw [List.findIdx?_isSome, List.any_eq_true]
    exact ⟨j, List.mem_map.mpr ⟨_, hmem, rfl⟩, decide_eq_true rfl⟩
  obtain ⟨k, hk⟩ := Option.isSome_iff_exists.mp hsome
  refine ⟨k, hkeys ▸ hk, ?_⟩
  obtain ⟨hlt, hderive, -⟩ := List.findIdx?_eq_some_iff_getElem.mp hk
  rw [List.length_map] at hlt
  rw [List.getElem_map, decide_eq_true_iff] at hderive
  have hat : commitments[(entries[k]).1]? = some (entries[k]).2 :=
    (BTreeMap.mem_toList_iff _ _ _).mp (List.mem_filter.mp (List.getElem_mem hlt)).1
  have hkey : (entries[k]).1 = j := hids.eq hat hj hderive
  rw [hkey, hj, Option.some.injEq] at hat
  rw [List.getElem?_eq_getElem hlt, Option.some.injEq]
  exact Prod.ext hkey hat.symm

end Exchange

/-! ## 4. Receiving -/

section Receiving

variable {F : Dealing E} {commitments : BTreeMap Address (VerifiedCommitment E)}
  {i j : Address} {secrets secrets' : Secrets E} {s s' : SharingState E}
  {share share' : KeyGenSecretShare}

/-- **A share is accepted exactly when it is the committed polynomial's value.** -/
theorem VerifiedShare.new_eq_ok {me : E.Identifier} {peer : Address}
    {commitment : VssCommitment E.toCrateTypes} {coefficients : List (ZMod N)} {w : U256}
    {v : VerifiedShare E} (h : CommitsTo F commitment coefficients) :
    VerifiedShare.new E me peer commitment w = .ok v ↔
      E.decodeScalar w = some v.package.signingShare ∧
        F.scalar v.package.signingShare = evaluatePolynomial (F.identifier me) coefficients := by
  have hverify : ∀ x, E.verifyShare me x commitment = .ok () ↔
      F.scalar x = evaluatePolynomial (F.identifier me) coefficients := by
    intro x
    rw [F.verifyShare_iff, show commitment.map F.point = coefficients.map mulG from h,
      evaluateVss_map, mulG_injective.eq_iff]
  unfold VerifiedShare.new errWithCulprit frostScalar
  simp only [Except.mapError_eq_ok, Except.bind_eq_ok, Except.pure_eq_ok]
  cases hdecode : E.decodeScalar w with
  | none =>
    refine iff_of_false ?_ fun hnone => nomatch hnone.1
    rintro ⟨x, hx, -⟩
    exact nomatch hx
  | some x =>
    constructor
    · rintro ⟨x', hx', ⟨⟩, hok, rfl⟩
      rw [Except.ok.injEq] at hx'
      subst hx'
      exact ⟨rfl, (hverify x).mp hok⟩
    · rintro ⟨hx, hvalue⟩
      rw [Option.some.injEq] at hx
      subst hx
      exact ⟨_, rfl, (), (hverify _).mpr hvalue, rfl⟩

/-- The value of one's own is accepted from its encoding. -/
theorem VerifiedShare.new_encode (F : Dealing E) {me : E.Identifier} {peer : Address}
    {commitment : VssCommitment E.toCrateTypes} {coefficients : List (ZMod N)} {x : E.Scalar}
    (h : CommitsTo F commitment coefficients)
    (hx : F.scalar x = evaluatePolynomial (F.identifier me) coefficients) :
    VerifiedShare.new E me peer commitment (E.encodeScalar x) = .ok ⟨⟨x⟩⟩ :=
  (VerifiedShare.new_eq_ok h).mpr ⟨F.decodeScalar_encodeScalar x, hx⟩

/-- One's own value is checked against one's own commitment. -/
theorem Dealt.verifyEncrypted_self (hd : Dealt F commitments j secrets s) (encrypted : List U256) :
    verifyEncryptedSecretShare E s j encrypted = VerifiedShare.new E (E.derive j) j
      secrets.secretPackage.commitment (E.encodeScalar s.secretPackage.secretShare) := by
  unfold verifyEncryptedSecretShare
  rw [if_pos hd.identifier.symm, hd.identifier, hd.commitment]
  rfl

/-- A dealer's value is decrypted from one's own place in the dealer's list. -/
theorem Dealt.verifyEncrypted_peer (hids : DistinctIds E commitments)
    (hd : Dealt F commitments j secrets s) {ci cj : VerifiedCommitment E}
    (hj : commitments[j]? = some cj) (hi : commitments[i]? = some ci) (hne : j ≠ i) :
    ∃ k : Nat, (commitments.toList.filter fun e => e.1 ≠ i)[k]? = some (j, cj) ∧
      ∀ encrypted : List U256, verifyEncryptedSecretShare E s i encrypted =
        match encrypted[k]? with
        | none => .error (.unexpected .incorrectNumberOfShares)
        | some masked => VerifiedShare.new E (E.derive j) i ci.package.commitment
            (ecdh E secrets.encryptionKey ci.encryptionPublicKey masked) := by
  obtain ⟨k, hk, hplace⟩ := place_of hids hj hne
  refine ⟨k, hplace, fun encrypted => ?_⟩
  have hother : E.derive i ≠ E.derive j := fun h => hne (hids.eq hj hi h.symm)
  unfold verifyEncryptedSecretShare
  rw [hd.identifier, if_neg hother, hd.group, hi]
  dsimp only
  rw [hk, hd.encryptionKey]
  dsimp only
  cases encrypted[k]? with
  | none => rfl
  | some masked => rfl

/-- **An accepted encrypted share is the dealer's value**, whoever wrote the list. -/
theorem Dealt.verifyEncrypted_sound (hids : DistinctIds E commitments)
    (hd : Dealt F commitments j secrets s)
    {c : VerifiedCommitment E} (hi : commitments[i]? = some c) {coefficients : List (ZMod N)}
    (hcommits : CommitsTo F c.package.commitment coefficients) {encrypted : List U256}
    {v : VerifiedShare E} (hv : verifyEncryptedSecretShare E s i encrypted = .ok v) :
    F.scalar v.package.signingShare = valueAt F coefficients j := by
  obtain ⟨cj, hj, hcommitment⟩ := hd.own
  by_cases hne : j = i
  · subst hne
    rw [hd.verifyEncrypted_self, ← hcommitment] at hv
    rw [hj, Option.some.injEq] at hi
    subst hi
    exact ((VerifiedShare.new_eq_ok hcommits).mp hv).2
  · obtain ⟨k, -, heq⟩ := hd.verifyEncrypted_peer hids hj hi hne
    rw [heq] at hv
    cases hmasked : encrypted[k]? with
    | none =>
      rw [hmasked] at hv
      exact nomatch hv
    | some masked =>
      rw [hmasked] at hv
      exact ((VerifiedShare.new_eq_ok hcommits).mp hv).2

/-- **A dealt share is accepted, and is the dealer's value at the recipient.** -/
theorem verify_dealt (hids : DistinctIds E commitments) (hi : Honest F commitments i secrets)
    (hj : Honest F commitments j secrets')
    (hdeal : generateSecretShares E secrets commitments = .ok (s, share))
    (hdeal' : generateSecretShares E secrets' commitments = .ok (s', share')) :
    ∃ v, verifyEncryptedSecretShare E s' i share.f = .ok v ∧
      F.scalar v.package.signingShare = valueAt F (secrets.polynomial F) j := by
  have hd := hi.dealt hids hdeal
  have hd' := hj.dealt hids hdeal'
  by_cases hne : j = i
  · subst hne
    have hrecorded := hi.recorded.symm.trans hj.recorded
    rw [Option.some.injEq, VerifiedCommitment.mk.injEq, Round1Package.mk.injEq] at hrecorded
    obtain ⟨-, hcommitment, -⟩ := hrecorded
    have hpolynomial : secrets.polynomial F = secrets'.polynomial F :=
      CommitsTo.eq (hcommitment ▸ hi.committed) hj.committed
    rw [hpolynomial, hd'.verifyEncrypted_self]
    exact ⟨_, VerifiedShare.new_encode F hj.committed hd'.secretShare, hd'.secretShare⟩
  · obtain ⟨k, hplace, heq⟩ := hd'.verifyEncrypted_peer hids hj.recorded hi.recorded hne
    obtain ⟨package, hpackage, hvalue⟩ := hd.packages j (by rw [hj.recorded]; rfl) hne
    obtain ⟨masked, hmasked, hencrypt⟩ := getElem?_of_mapM (hi.encrypted hids hdeal) hplace
    unfold encryptFor at hencrypt
    dsimp only at hencrypt
    rw [hpackage, Except.ok.injEq] at hencrypt
    refine ⟨⟨⟨package.signingShare⟩⟩, ?_, hvalue⟩
    rw [heq, hmasked, ← hencrypt]
    dsimp only
    rw [ecdh_ecdh F]
    exact VerifiedShare.new_encode F hi.committed hvalue

/-- **A revealed value is accepted.** -/
theorem verify_revealed (hids : DistinctIds E commitments) (hi : Honest F commitments i secrets)
    (hdeal : generateSecretShares E secrets commitments = .ok (s, share))
    {g : GroupCommitments E} (hg : g.commitments = commitments) (hj : (commitments[j]?).isSome)
    (hne : j ≠ i) :
    ∃ w v, revealSecretShare E s j = .ok w ∧ verifyRevealedSecretShare E g j i w = .ok v ∧
      F.scalar v.package.signingShare = valueAt F (secrets.polynomial F) j := by
  have hd := hi.dealt hids hdeal
  obtain ⟨package, hpackage, hvalue⟩ := hd.packages j hj hne
  refine ⟨E.encodeScalar package.signingShare, ⟨⟨package.signingShare⟩⟩, ?_, ?_, hvalue⟩
  · unfold revealSecretShare
    rw [hpackage]
  · unfold verifyRevealedSecretShare
    rw [hg, hi.recorded]
    exact VerifiedShare.new_encode F hi.committed hvalue

/-- **An accepted revealed share is the accused's value at the plaintiff.** -/
theorem verifyRevealed_sound {g : GroupCommitments E} {c : VerifiedCommitment E}
    (hi : g.commitments[i]? = some c) {coefficients : List (ZMod N)}
    (hcommits : CommitsTo F c.package.commitment coefficients) {w : U256} {v : VerifiedShare E}
    (hv : verifyRevealedSecretShare E g j i w = .ok v) :
    F.scalar v.package.signingShare = valueAt F coefficients j := by
  unfold verifyRevealedSecretShare at hv
  rw [hi] at hv
  exact ((VerifiedShare.new_eq_ok hcommits).mp hv).2

/-- **The public key share a dealer publishes is the one everyone computes.** -/
theorem verifySecretShare_dealt (F : Dealing E) (hid : secrets.secretPackage.identifier = E.derive i)
    (hi : (commitments[i]?).isSome)
    (hdeal : generateSecretShares E secrets commitments = .ok (s, share)) {g : GroupCommitments E}
    (hg : groupCommitments E commitments = .ok g) :
    verifySecretShare E g i share =
      .ok (⟨E.verifyingShareFromCommitment (E.derive i) g.groupCommitment⟩, share.f) := by
  obtain ⟨hcommitments, hsum, -⟩ := groupCommitments_eq_ok.mp hg
  obtain ⟨_, _, _, _, sum, _, f, -, -, -, hsum', -, -, -, rfl⟩ := generateSecretShares_eq_ok.mp hdeal
  rw [hsum, Except.ok.injEq] at hsum'
  subst hsum'
  unfold verifySecretShare errWithCulprit
  obtain ⟨c, hc⟩ := Option.isSome_iff_exists.mp hi
  rw [hcommitments, if_neg (by rw [hc]; exact fun hnone => nomatch hnone)]
  simp only [Except.mapError_eq_ok, Except.bind_eq_ok, hid]
  refine ⟨_, F.frostPoint_solidityPoint _, ?_⟩
  rw [if_neg (not_not.mpr rfl)]
  rfl

end Receiving

/-! ## 5. The key -/

/-- The polynomial with given coefficients. -/
noncomputable def ofCoefficients (coefficients : List (ZMod N)) : Polynomial (ZMod N) :=
  coefficients.foldr (fun c p => Polynomial.C c + Polynomial.X * p) 0

theorem ofCoefficients_cons (c : ZMod N) (coefficients : List (ZMod N)) :
    ofCoefficients (c :: coefficients) =
      Polynomial.C c + Polynomial.X * ofCoefficients coefficients := rfl

theorem eval_ofCoefficients (x : ZMod N) (coefficients : List (ZMod N)) :
    (ofCoefficients coefficients).eval x = evaluatePolynomial x coefficients := by
  induction coefficients with
  | nil => exact Polynomial.eval_zero
  | cons c coefficients ih =>
    have hstep : evaluatePolynomial x (c :: coefficients) =
        c + x * evaluatePolynomial x coefficients := rfl
    rw [hstep, ofCoefficients_cons, Polynomial.eval_add, Polynomial.eval_C, Polynomial.eval_mul,
      Polynomial.eval_X, ih]

theorem eval_zero_ofCoefficients (coefficients : List (ZMod N)) :
    (ofCoefficients coefficients).eval 0 = coefficients.getD 0 0 := by
  rw [eval_ofCoefficients]
  cases coefficients with
  | nil => rfl
  | cons c coefficients =>
    have hstep : evaluatePolynomial 0 (c :: coefficients) =
        c + 0 * evaluatePolynomial 0 coefficients := rfl
    rw [hstep, zero_mul, add_zero]
    rfl

theorem degree_ofCoefficients (coefficients : List (ZMod N)) :
    (ofCoefficients coefficients).degree < coefficients.length := by
  induction coefficients with
  | nil => exact WithBot.bot_lt_coe _
  | cons c coefficients ih =>
    rw [Polynomial.degree_lt_iff_coeff_zero] at ih ⊢
    intro m hm
    obtain ⟨m, rfl⟩ : ∃ k, m = k + 1 := ⟨m - 1, by rw [List.length_cons] at hm; omega⟩
    rw [ofCoefficients_cons, Polynomial.coeff_add, Polynomial.coeff_C_succ,
      Polynomial.coeff_X_mul, ih m (by rw [List.length_cons] at hm; omega), add_zero]

section Key

variable {F : Dealing E} {commitments : BTreeMap Address (VerifiedCommitment E)}
  {polynomials : Address → List (ZMod N)} {t : Nat}

/-- The polynomial of the group: the sum of the dealers'. -/
noncomputable def groupPolynomial (commitments : BTreeMap Address (VerifiedCommitment E))
    (polynomials : Address → List (ZMod N)) : Polynomial (ZMod N) :=
  (commitments.toList.map fun e => ofCoefficients (polynomials e.1)).sum

/-- The dealers' polynomials. -/
def Committed (F : Dealing E) (commitments : BTreeMap Address (VerifiedCommitment E))
    (polynomials : Address → List (ZMod N)) (t : Nat) : Prop :=
  ∀ (a : Address) (c : VerifiedCommitment E), commitments[a]? = some c →
    CommitsTo F c.package.commitment (polynomials a) ∧ (polynomials a).length = t

theorem degree_groupPolynomial (h : Committed F commitments polynomials t) :
    (groupPolynomial commitments polynomials).degree < t := by
  rw [← Polynomial.mem_degreeLT]
  refine list_sum_mem fun p hp => ?_
  obtain ⟨⟨a, c⟩, he, rfl⟩ := List.mem_map.mp hp
  obtain ⟨-, hlength⟩ := h a c ((BTreeMap.mem_toList_iff _ _ _).mp he)
  rw [Polynomial.mem_degreeLT, ← hlength]
  exact degree_ofCoefficients _

theorem eval_groupPolynomial (x : ZMod N) : (groupPolynomial commitments polynomials).eval x =
    (commitments.toList.map fun e => evaluatePolynomial x (polynomials e.1)).sum := by
  rw [groupPolynomial, Polynomial.eval_listSum, List.map_map]
  exact congrArg List.sum (List.map_congr_left fun e _ => eval_ofCoefficients x _)

/-- **The group key is the constant term of the group's polynomial.** -/
theorem point_groupKey (h : Committed F commitments polynomials t) (hne : commitments.toList ≠ [])
    {g : GroupCommitments E} (hg : groupCommitments E commitments = .ok g) (ht : 0 < t) :
    F.point g.verifyingKey = mulG ((groupPolynomial commitments polynomials).eval 0) := by
  obtain ⟨-, hsum, hkey⟩ := groupCommitments_eq_ok.mp hg
  have hvalues : commitments.values.map (·.package.commitment) =
      commitments.toList.map fun e => e.2.package.commitment := by
    rw [BTreeMap.values_eq, List.map_map]
    rfl
  have hcommits : ∀ e ∈ commitments.toList, CommitsTo F e.2.package.commitment (polynomials e.1) ∧
      e.2.package.commitment.length = t := by
    intro e he
    obtain ⟨hcommits, hlength⟩ := h _ _ ((BTreeMap.mem_toList_iff _ _ _).mp he)
    exact ⟨hcommits, hcommits.length.trans hlength⟩
  unfold groupCommitment at hsum
  rw [hvalues] at hsum
  obtain ⟨sum, hok, hlength, hpoint⟩ :=
    F.sumCommitments_ok (commitments.toList.map fun e => e.2.package.commitment) t
      (fun hnil => hne (List.map_eq_nil_iff.mp hnil))
      (List.forall_mem_map.mpr fun e he => (hcommits e he).2)
  rw [hok, Except.ok.injEq] at hsum
  subst hsum
  obtain ⟨c, rest, hcons⟩ := List.exists_cons_of_length_pos (hlength ▸ ht)
  rw [hcons, F.verifyingKey_cons, Except.ok.injEq] at hkey
  have hzero := hpoint 0
  rw [hcons] at hzero
  rw [← hkey, show F.point c = ((c :: rest).map F.point).getD 0 0 from rfl, hzero,
    eval_groupPolynomial, map_list_sum, List.map_map, List.map_map]
  refine congrArg List.sum (List.map_congr_left fun e he => ?_)
  change (e.2.package.commitment.map F.point).getD 0 0 =
    mulG (evaluatePolynomial 0 (polynomials e.1))
  rw [(hcommits e he).1, ← eval_ofCoefficients, eval_zero_ofCoefficients]
  cases polynomials e.1 with
  | nil => exact (map_zero mulG).symm
  | cons x xs => rfl

theorem DistinctIds.of_keys {α β : Type} {items : BTreeMap Address α} {items' : BTreeMap Address β}
    (h : DistinctIds E items) (hkeys : ∀ a : Address, (items'[a]?).isSome = (items[a]?).isSome) :
    items'.toList.map Prod.fst = items.toList.map Prod.fst ∧ DistinctIds E items' := by
  have heq : items'.toList.map Prod.fst = items.toList.map Prod.fst := by
    rw [Std.ExtTreeMap.map_fst_toList_eq_keys, Std.ExtTreeMap.map_fst_toList_eq_keys]
    exact BTreeMap.keys_eq hkeys
  have hderive := congrArg (List.map E.derive) heq
  rw [List.map_map, List.map_map] at hderive
  refine ⟨heq, ?_⟩
  change (items'.toList.map (E.derive ∘ Prod.fst)).Nodup
  rw [hderive]
  exact h

/-- **Verified shares from everyone make a key share**: the value of the group's polynomial. -/
theorem finalize_ok {j : Address} {secrets : Secrets E} {s : SharingState E}
    (hids : DistinctIds E commitments) (h : Sampled F j secrets)
    (hd : Dealt F commitments j secrets s)
    (hg : groupCommitments E commitments = .ok s.groupCommitments)
    (hcommitted : Committed F commitments polynomials t)
    {shares : BTreeMap Address (VerifiedShare E)}
    (hkeys : ∀ a : Address, (shares[a]?).isSome = (commitments[a]?).isSome)
    (hvalues : ∀ (a : Address) (v : VerifiedShare E), shares[a]? = some v →
      F.scalar v.package.signingShare = valueAt F (polynomials a) j) :
    ∃ key, finalize E s shares = .ok ⟨key⟩ ∧ key.identifier = E.derive j ∧
      key.minSigners = secrets.secretPackage.minSigners ∧
      key.verifyingKey = s.groupCommitments.verifyingKey ∧
      F.scalar key.signingShare =
        (groupPolynomial commitments polynomials).eval (F.identifier (E.derive j)) ∧
      F.point key.verifyingShare = mulG (F.scalar key.signingShare) := by
  obtain ⟨hsame', hids'⟩ := hids.of_keys hkeys
  obtain ⟨cj, hcj, hcommitment⟩ := hd.own
  obtain ⟨v, hv⟩ := Option.isSome_iff_exists.mp (by rw [hkeys, hcj]; rfl : (shares[j]?).isSome)
  obtain ⟨peers, hpeers, hget, hsize, hpackages⟩ :=
    peerPackages_ok (·.package) hids hcj
  obtain ⟨peers', hpeers', hget', -, hpackages'⟩ := peerPackages_ok (·.package) hids' hv
  have hown : v.package.signingShare = s.secretPackage.secretShare := by
    refine F.scalar_injective ?_
    rw [hvalues j v hv, hd.secretShare,
      CommitsTo.eq (hcommitted _ _ hcj).1 (hcommitment ▸ h.committed)]
  have hsame : ∀ i : E.Identifier, (peers'[i]?).isSome = (peers[i]?).isSome := by
    intro i
    rw [Bool.eq_iff_iff, Option.isSome_iff_exists, Option.isSome_iff_exists]
    simp only [hget, hget']
    constructor
    · rintro ⟨_, b, y, hb, hne, hi, -⟩
      obtain ⟨c, hc⟩ := Option.isSome_iff_exists.mp
        (by rw [← hkeys, hb]; rfl : (commitments[b]?).isSome)
      exact ⟨_, b, c, hc, hne, hi, rfl⟩
    · rintro ⟨_, b, y, hb, hne, hi, -⟩
      obtain ⟨c, hc⟩ := Option.isSome_iff_exists.mp
        (by rw [hkeys, hb]; rfl : (shares[b]?).isSome)
      exact ⟨_, b, c, hc, hne, hi, rfl⟩
  have hlength : s.secretPackage.commitment.length = secrets.secretPackage.minSigners := by
    rw [hd.commitment, h.committed.length, Secrets.polynomial, List.length_map, h.length]
  obtain ⟨key, sum, hkey, hid, hmin, hsigning, hverifying, hsum, hverifyingKey⟩ :=
    F.part3_ok s.secretPackage peers peers' (by rw [hsize, hd.maxSigners]) hsame
      (fun i package share hi hi' => by
        obtain ⟨b, c, hb, -, rfl, rfl⟩ := (hget _ _).mp hi
        obtain ⟨b', w, hb', -, hderive, rfl⟩ := (hget' _ _).mp hi'
        obtain ⟨c', hc'⟩ := Option.isSome_iff_exists.mp
          (by rw [← hkeys, hb']; rfl : (commitments[b']?).isSome)
        have hbb : b' = b := hids.eq hc' hb hderive
        subst hbb
        rw [F.verifyShare_iff, hvalues _ _ hb', hd.identifier,
          show c.package.commitment.map F.point = (polynomials b').map mulG from
            (hcommitted _ _ hb).1, evaluateVss_map]
        rfl)
      (List.ne_nil_of_length_pos (by rw [hlength]; exact h.positive))
      (fun i package hi => by
        obtain ⟨b, c, hb, -, -, rfl⟩ := (hget _ _).mp hi
        rw [hd.lengths _ _ hb, hlength])
  refine ⟨key, ?_, hid.trans hd.identifier, hmin.trans hd.minSigners, ?_, ?_, hverifying⟩
  · unfold finalize errUnexpected
    simp only [hd.identifier, hd.group, Except.bind_eq_ok]
    refine ⟨_, hpeers, _, hpeers', ?_⟩
    rw [if_neg (not_not.mpr hown)]
    simp only [Except.bind_eq_ok, Except.mapError_eq_ok, Except.pure_eq_ok]
    exact ⟨key, hkey, rfl⟩
  · obtain ⟨-, hsum', hverifyingKey'⟩ := groupCommitments_eq_ok.mp hg
    have hall := hpackages.map (·.commitment)
    rw [List.map_cons, List.map_map, hcommitment, ← hd.commitment] at hall
    have hlengths : ∀ c ∈ commitments.values.map (·.package.commitment),
        c.length = secrets.secretPackage.minSigners := by
      refine List.forall_mem_map.mpr fun c hc => ?_
      obtain ⟨b, hb⟩ := (BTreeMap.mem_values _ _).mp hc
      exact hd.lengths b c hb
    have hsums : E.sumCommitments (s.secretPackage.commitment :: peers.values.map (·.commitment)) =
        groupCommitment E commitments :=
      F.sumCommitments_perm hall (List.cons_ne_nil _ _) fun c hc => hlengths c (hall.mem_iff.mp hc)
    rw [hsum, hsum', Except.ok.injEq] at hsums
    rw [hsums, hverifyingKey', Except.ok.injEq] at hverifyingKey
    exact hverifyingKey.symm
  · have hvalues' : shares.values.map (fun v => F.scalar v.package.signingShare) =
        (shares.toList.map Prod.fst).map (fun a => valueAt F (polynomials a) j) := by
      rw [BTreeMap.values_eq, List.map_map, List.map_map]
      exact List.map_congr_left fun e he => hvalues _ _ ((BTreeMap.mem_toList_iff _ _ _).mp he)
    have hall := (hpackages'.map fun p => F.scalar p.signingShare).sum_eq
    rw [List.map_cons, List.sum_cons, List.map_map] at hall
    rw [hsigning, ← hown, hall, eval_groupPolynomial]
    refine (congrArg List.sum hvalues').trans ?_
    rw [hsame', List.map_map]
    rfl

end Key

end Frost

end Safenet
