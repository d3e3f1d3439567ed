import GitScale.Approval.Audit
import GitScale.Foundation.HashChain
import GitScale.Foundation.Suffix
import GitScale.Go.Sha256

/-!
# What the audit chain commits to

The hash of a row covers the hash of its predecessor, the canonical payload, the two
kinds, the actor and the instant.  The parts stand side by side without lengths, but they
can be read off from the end.  The plan and the policy of a row are not covered.
-/

namespace GitScale.Approval

open Foundation

/-! ## The hashed bytes -/

/-- What `ComputeRowHash` feeds to SHA-256. -/
def hashInput (prev canonical : Bytes) (row : AuditRow) : Bytes :=
  prev ++ canonical ++ row.actorKind.text.toUTF8.toList ++ [0x1f] ++
    row.eventKind.text.toUTF8.toList ++ [0x1f] ++
    bigEndian 16 (row.actorID.getD UUID.nil).toNat ++
    bigEndian 8 ((unixNano row.createdAt) % 2 ^ 64).toNat

theorem computeRowHash_eq_ok_iff {digest : Digest} {prev hash : Bytes} {row : AuditRow} :
    computeRowHash digest prev row = .ok hash ↔
      ∃ canonical, digest.canonicalPayload row.payload = .ok canonical ∧
        digest.sha256 (hashInput prev canonical row) = hash := by
  unfold computeRowHash
  cases digest.canonicalPayload row.payload with
  | error message => simp
  | ok canonical => simp [hashInput]

@[simp] theorem length_bigEndian (width value : Nat) :
    (bigEndian width value).length = width := by
  simp [bigEndian]

/-- The bytes of a number that fits determine the number. -/
theorem bigEndian_inj {width left right : Nat} (fits : left < 2 ^ (8 * width))
    (fits' : right < 2 ^ (8 * width)) (equal : bigEndian width left = bigEndian width right) :
    left = right := by
  have bytes : ∀ index < width,
      (left >>> (8 * index)) % 2 ^ 8 = (right >>> (8 * index)) % 2 ^ 8 := by
    intro index inside
    have position : width - 1 - index ∈ List.range width := by
      rw [List.mem_range]
      omega
    have same := List.map_inj_left.mp equal _ position
    have reversed : width - 1 - (width - 1 - index) = index := by omega
    rw [reversed] at same
    simpa using congrArg UInt8.toNat same
  apply Nat.eq_of_testBit_eq
  intro bit
  by_cases inside : bit < 8 * width
  · have byte := congrArg (fun value => value.testBit (bit % 8)) (bytes (bit / 8) (by omega))
    have position : 8 * (bit / 8) + bit % 8 = bit := by omega
    have low : bit % 8 < 8 := Nat.mod_lt _ (by decide)
    simpa only [Nat.testBit_mod_two_pow, Nat.testBit_shiftRight, low, position, decide_true,
      Bool.true_and] using byte
  · have below : 2 ^ (8 * width) ≤ 2 ^ bit := Nat.pow_le_pow_right (by decide) (by omega)
    rw [Nat.testBit_lt_two_pow (by omega), Nat.testBit_lt_two_pow (by omega)]

/-- The instant has a nanosecond count that fits in an `int64`. -/
def Representable (instant : Time) : Prop :=
  -2 ^ 63 ≤ instant + zeroTimeUnix * 1000000000 ∧
    instant + zeroTimeUnix * 1000000000 < 2 ^ 63

instance (instant : Time) : Decidable (Representable instant) :=
  inferInstanceAs (Decidable (_ ∧ _))

theorem int64_inj {left right : Int} (above : -2 ^ 63 ≤ left) (below : left < 2 ^ 63)
    (above' : -2 ^ 63 ≤ right) (below' : right < 2 ^ 63)
    (equal : (left % 2 ^ 64).toNat = (right % 2 ^ 64).toNat) : left = right := by
  omega

theorem unixNano_inj {left right : Time} (fits : Representable left)
    (fits' : Representable right)
    (equal : (unixNano left % 2 ^ 64).toNat = (unixNano right % 2 ^ 64).toNat) :
    left = right := by
  have nanoseconds : ∀ instant, Representable instant →
      unixNano instant = instant + zeroTimeUnix * 1000000000 := by
    intro instant representable
    exact Int.bmod_eq_of_le representable.1 representable.2
  rw [nanoseconds left fits, nanoseconds right fits'] at equal
  exact (Int.add_left_inj _).mp (int64_inj fits.1 fits.2 fits'.1 fits'.2 equal)

theorem separator_not_mem_eventKind (kind : AuditEventKind) :
    (0x1f : UInt8) ∉ kind.text.toUTF8.toList := by
  cases kind <;> decide +kernel

theorem eventKind_text_inj {left right : AuditEventKind}
    (equal : left.text.toUTF8.toList = right.text.toUTF8.toList) : left = right := by
  cases left <;> cases right <;> first | rfl | exact absurd equal (by decide +kernel)

theorem suffixFree_actorKind :
    SuffixFree fun kind : ActorKind => kind.text.toUTF8.toList := by
  intro left right isSuffix
  cases left <;> cases right <;> first | rfl | exact absurd isSuffix (by decide +kernel)

/-- Read from its end, the hashed text gives back all its parts. -/
theorem hashInput_inj {prev prev' canonical canonical' : Bytes} {row row' : AuditRow}
    (sized : prev.length = prev'.length) (fits : Representable row.createdAt)
    (fits' : Representable row'.createdAt)
    (equal : hashInput prev canonical row = hashInput prev' canonical' row') :
    (prev = prev' ∧ canonical = canonical') ∧ row.actorKind = row'.actorKind ∧
      row.eventKind = row'.eventKind ∧
      row.actorID.getD UUID.nil = row'.actorID.getD UUID.nil ∧
      row.createdAt = row'.createdAt := by
  unfold hashInput at equal
  rcases List.append_inj' equal (by simp) with ⟨equal, instant⟩
  rcases List.append_inj' equal (by simp) with ⟨equal, actor⟩
  rcases List.append_inj' equal rfl with ⟨equal, -⟩
  rw [List.append_assoc _ [0x1f], List.append_assoc _ [0x1f], List.singleton_append,
    List.singleton_append] at equal
  rcases append_separator_inj (separator_not_mem_eventKind _) (separator_not_mem_eventKind _)
    equal with ⟨equal, event⟩
  rcases suffixFree_actorKind.append_inj equal with ⟨equal, kind⟩
  refine ⟨List.append_inj equal sized, kind, eventKind_text_inj event, ?_, ?_⟩
  · exact BitVec.eq_of_toNat_eq
      (bigEndian_inj (BitVec.isLt _) (BitVec.isLt _) actor)
  · have below : ∀ count : Int, (count % 2 ^ 64).toNat < 2 ^ (8 * 8) := by
      intro count
      omega
    exact unixNano_inj fits fits' (bigEndian_inj (below _) (below _) instant)

/-! ## Chains of rows -/

/-- How audit rows are linked. -/
def auditLinking (digest : Digest) : Linking AuditRow Bytes String where
  prevOf := AuditRow.prevHash
  hashOf := AuditRow.rowHash
  digest := computeRowHash digest

theorem linked_cons_iff {digest : Digest} {prev : Bytes} {row : AuditRow}
    {rest : List AuditRow} :
    (auditLinking digest).Linked prev (row :: rest) ↔
      row.prevHash = prev ∧ computeRowHash digest prev row = .ok row.rowHash ∧
        (auditLinking digest).Linked row.rowHash rest :=
  Iff.rfl

theorem verifyFrom_eq_iff {digest : Digest} {index : Nat} {prev : Bytes}
    {rows : List AuditRow} :
    verifyFrom digest index prev rows = (-1, none) ↔
      (auditLinking digest).Linked prev rows := by
  induction rows generalizing index prev with
  | nil => exact iff_of_true rfl trivial
  | cons row rest inductionHypothesis =>
      simp only [verifyFrom, linked_cons_iff]
      by_cases named : row.prevHash = prev
      · cases computed : computeRowHash digest prev row with
        | error message => simp [named]
        | ok got =>
            by_cases stored : got = row.rowHash
            · rw [stored]
              simpa [named] using inductionHypothesis
            · simp [named, stored]
      · simp [named]

/-- `VerifyChain` accepts exactly the linked chains. -/
theorem verifyChain_eq_iff {digest : Digest} {rows : List AuditRow} :
    verifyChain digest rows = (-1, none) ↔
      (auditLinking digest).Linked genesisHash rows :=
  verifyFrom_eq_iff

/-- What the hash of a row says about the row. -/
structure SameContent (digest : Digest) (left right : AuditRow) : Prop where
  payload : digest.canonicalPayload left.payload = digest.canonicalPayload right.payload
  actorKind : left.actorKind = right.actorKind
  eventKind : left.eventKind = right.eventKind
  actorID : left.actorID.getD UUID.nil = right.actorID.getD UUID.nil
  createdAt : left.createdAt = right.createdAt

/-- A text that is hashed when the rows are verified. -/
def Hashed (digest : Digest) (rows : List AuditRow) (input : Bytes) : Prop :=
  ∃ row ∈ rows, ∃ canonical, digest.canonicalPayload row.payload = .ok canonical ∧
    input = hashInput row.prevHash canonical row

/-- SHA-256 is injective on the texts that are hashed when the rows are verified. -/
def CollisionFree (digest : Digest) (rows : List AuditRow) : Prop :=
  ∀ input input', Hashed digest rows input → Hashed digest rows input' →
    digest.sha256 input = digest.sha256 input' → input = input'

/-- Two rows with one hash name the same predecessor and have the same content. -/
theorem sameContent_of_rowHash {digest : Digest} {rows : List AuditRow}
    (collisionFree : CollisionFree digest rows) {row row' : AuditRow}
    (member : row ∈ rows) (member' : row' ∈ rows)
    (sized : row.prevHash.length = row'.prevHash.length)
    (fits : Representable row.createdAt) (fits' : Representable row'.createdAt)
    (computed : computeRowHash digest row.prevHash row = .ok row.rowHash)
    (computed' : computeRowHash digest row'.prevHash row' = .ok row'.rowHash)
    (equal : row.rowHash = row'.rowHash) :
    row.prevHash = row'.prevHash ∧ SameContent digest row row' := by
  rcases computeRowHash_eq_ok_iff.mp computed with ⟨canonical, payload, hash⟩
  rcases computeRowHash_eq_ok_iff.mp computed' with ⟨canonical', payload', hash'⟩
  have inputs := collisionFree _ _ ⟨row, member, canonical, payload, rfl⟩
    ⟨row', member', canonical', payload', rfl⟩ (by rw [hash, hash', equal])
  rcases hashInput_inj sized fits fits' inputs with
    ⟨⟨predecessor, same⟩, actorKind, eventKind, actorID, createdAt⟩
  exact ⟨predecessor, by rw [payload, payload', same], actorKind, eventKind, actorID,
    createdAt⟩

theorem tip_eq_getLast (digest : Digest) (start : Bytes) (rows : List AuditRow) :
    (auditLinking digest).tip start rows =
      (rows.getLast?.map AuditRow.rowHash).getD start := by
  cases rows using List.reverseRecOn with
  | nil => rfl
  | append_singleton front last =>
      rw [Linking.tip_concat, List.getLast?_concat]
      rfl

/-- The last hash commits to the whole chain: two accepted chains of one length with the
same last hash have, row by row, the same content. -/
theorem sameContent_of_lastHash (digest : Digest)
    (sized : ∀ input, (digest.sha256 input).length = 32) (left right : List AuditRow)
    (collisionFree : CollisionFree digest (left ++ right))
    (accepted : verifyChain digest left = (-1, none))
    (accepted' : verifyChain digest right = (-1, none))
    (fits : ∀ row ∈ left ++ right, Representable row.createdAt)
    (equalLength : left.length = right.length)
    (equalHash : left.getLast?.map AuditRow.rowHash = right.getLast?.map AuditRow.rowHash) :
    List.Forall₂ (SameContent digest) left right := by
  have linked := verifyChain_eq_iff.mp accepted
  have linked' := verifyChain_eq_iff.mp accepted'
  have hashSized : ∀ prev row hash, computeRowHash digest prev row = .ok hash →
      hash.length = 32 := by
    intro prev row hash computed
    rcases computeRowHash_eq_ok_iff.mp computed with ⟨canonical, -, rfl⟩
    exact sized _
  have prevSized : ∀ {rows : List AuditRow}, (auditLinking digest).Linked genesisHash rows →
      ∀ row ∈ rows, row.prevHash.length = 32 := by
    intro rows linked row member
    exact linked.prevOf_induction (fun hash : Bytes => hash.length = 32) rfl hashSized member
  apply linked.commits linked' equalLength
  · rw [tip_eq_getLast, tip_eq_getLast, equalHash]
  · intro row member row' member' equal
    have inside : row ∈ left ++ right := List.mem_append_left _ member
    have inside' : row' ∈ left ++ right := List.mem_append_right _ member'
    exact sameContent_of_rowHash collisionFree inside inside'
      ((prevSized linked row member).trans (prevSized linked' row' member').symm)
      (fits row inside) (fits row' inside') (linked.digest_of_mem member)
      (linked'.digest_of_mem member') equal

/-- `encoding/json` on the payloads of the rows below: two spellings of one object. -/
def rungCodec : JsonCodec where
  unmarshal text :=
    if text = "\x7b\"rung\":0\x7d".toUTF8.toList ∨
        text = "\x7b \"rung\": 0 \x7d".toUTF8.toList then
      .ok (.object [("rung", .number 0)])
    else .error "unexpected end of JSON input"
  marshalString text := .ok ("\"" ++ text ++ "\"").toUTF8.toList
  marshalNumber _ := .ok "0".toUTF8.toList

def rungDigest : Digest where
  sha256 := Go.sha256
  marshal _ := "\x7b\"rung\":0\x7d".toUTF8.toList
  canonicalPayload := canonicalPayload rungCodec

/-- The Unix epoch. -/
def unixEpoch : Time := -zeroTimeUnix * 1000000000

def expiryHash : Bytes :=
  [23, 200, 121, 14, 234, 83, 124, 130, 178, 2, 134, 28, 56, 52, 104, 68, 74, 122, 27, 119,
    69, 104, 233, 248, 58, 45, 186, 136, 94, 249, 79, 45]

def approvalHash : Bytes :=
  [58, 29, 45, 254, 5, 45, 31, 173, 77, 66, 186, 208, 194, 116, 111, 138, 232, 45, 67, 80,
    255, 249, 21, 112, 133, 189, 177, 21, 240, 130, 227, 104]

/-- An expiry, which has no actor, and an approval. -/
def shortChain : List AuditRow :=
  [⟨1, 1, some 5, .expired, none, .system, "\x7b\"rung\":0\x7d".toUTF8.toList, genesisHash,
      expiryHash, unixEpoch⟩,
    ⟨2, 1, some 5, .approved, some 11, .human, "\x7b\"rung\":0\x7d".toUTF8.toList, expiryHash,
      approvalHash, unixEpoch + 1⟩]

/-- The same chain about another plan, with the zero actor and another spelling of the
payloads. -/
def respelledChain : List AuditRow :=
  [⟨1, 1, some 6, .expired, some 0, .system, "\x7b \"rung\": 0 \x7d".toUTF8.toList, genesisHash,
      expiryHash, unixEpoch⟩,
    ⟨2, 1, some 6, .approved, some 11, .human, "\x7b \"rung\": 0 \x7d".toUTF8.toList,
      expiryHash, approvalHash, unixEpoch + 1⟩]

theorem accepted_shortChain : verifyChain rungDigest shortChain = (-1, none) := by
  decide +kernel

theorem accepted_respelledChain : verifyChain rungDigest respelledChain = (-1, none) := by
  decide +kernel

/-- Rows with one canonical payload are free of collisions when equal hashes come from
equal texts. -/
theorem collisionFree_of_hashes {digest : Digest} {rows : List AuditRow} (canonical : Bytes)
    (hashOf : AuditRow → Bytes)
    (spelled : ∀ row ∈ rows, digest.canonicalPayload row.payload = .ok canonical)
    (computed : ∀ row ∈ rows, computeRowHash digest row.prevHash row = .ok (hashOf row))
    (distinct : ∀ row ∈ rows, ∀ row' ∈ rows, hashOf row = hashOf row' →
      hashInput row.prevHash canonical row = hashInput row'.prevHash canonical row') :
    CollisionFree digest rows := by
  rintro _ _ ⟨row, member, text, payload, rfl⟩ ⟨row', member', text', payload', rfl⟩ equal
  rw [spelled row member] at payload
  rw [spelled row' member'] at payload'
  cases payload
  cases payload'
  have hash := computed row member
  have hash' := computed row' member'
  simp only [computeRowHash, spelled row member, spelled row' member'] at hash hash'
  exact distinct row member row' member' (Except.ok.inj (hash.symm.trans
    ((congrArg Except.ok equal).trans hash')))

theorem collisionFree_short : CollisionFree rungDigest (shortChain ++ respelledChain) := by
  apply collisionFree_of_hashes "\x7b\"rung\":0\x7d".toUTF8.toList AuditRow.rowHash
  · decide +kernel
  · intro row member
    rcases List.mem_append.mp member with short | respelled
    · exact (verifyChain_eq_iff.mp accepted_shortChain).digest_of_mem short
    · exact (verifyChain_eq_iff.mp accepted_respelledChain).digest_of_mem respelled
  · decide +kernel

theorem sameContent_of_lastHash_respelled :
    List.Forall₂ (SameContent rungDigest) shortChain respelledChain :=
  sameContent_of_lastHash rungDigest Go.length_sha256 shortChain respelledChain
    collisionFree_short accepted_shortChain accepted_respelledChain
    (by decide) rfl rfl

/-! ## Tampering with one row -/

theorem SameContent.computeRowHash_eq {digest : Digest} {left right : AuditRow}
    (same : SameContent digest left right) (prev : Bytes) :
    computeRowHash digest prev left = computeRowHash digest prev right := by
  unfold computeRowHash
  rw [same.payload, same.actorKind, same.eventKind, same.actorID, same.createdAt]

/-- A row that keeps its links can be replaced by any row of the same content. -/
theorem verifyChain_set_of_sameContent {digest : Digest} {rows : List AuditRow}
    (accepted : verifyChain digest rows = (-1, none)) {index : Nat} {row other : AuditRow}
    (present : rows[index]? = some row) (samePrev : other.prevHash = row.prevHash)
    (sameHash : other.rowHash = row.rowHash) (same : SameContent digest other row) :
    verifyChain digest (rows.set index other) = (-1, none) := by
  have linked := verifyChain_eq_iff.mp accepted
  rw [verifyChain_eq_iff, linked.set_iff present samePrev sameHash]
  exact (same.computeRowHash_eq _).trans
    (linked.digest_of_mem (List.mem_of_getElem? present))

/-- In an accepted chain the plan and the policy of a row can be replaced unnoticed;
everything else that the row says cannot. -/
theorem verifyChain_set_of_accepted (digest : Digest) (rows : List AuditRow)
    (accepted : verifyChain digest rows = (-1, none)) (index : Nat) (row : AuditRow)
    (present : rows[index]? = some row) :
    (∀ planID policyID, verifyChain digest
        (rows.set index { row with planID := planID, policyID := policyID }) = (-1, none)) ∧
      ∀ forged : AuditRow, forged.prevHash = row.prevHash → forged.rowHash = row.rowHash →
        Representable row.createdAt → Representable forged.createdAt →
        CollisionFree digest [row, forged] → ¬ SameContent digest row forged →
        verifyChain digest (rows.set index forged) ≠ (-1, none) := by
  constructor
  · intro planID policyID
    exact verifyChain_set_of_sameContent accepted present rfl rfl ⟨rfl, rfl, rfl, rfl, rfl⟩
  · intro forged samePrev sameHash fits fits' collisionFree different kept
    have linked := verifyChain_eq_iff.mp accepted
    rw [verifyChain_eq_iff, linked.set_iff present samePrev sameHash] at kept
    have computed : computeRowHash digest forged.prevHash forged = .ok forged.rowHash := by
      rw [samePrev, sameHash]
      exact kept
    have content := sameContent_of_rowHash collisionFree List.mem_cons_self
      (List.mem_cons_of_mem _ List.mem_cons_self) (congrArg List.length samePrev.symm) fits
      fits' (linked.digest_of_mem (List.mem_of_getElem? present)) computed sameHash.symm
    exact different content.2

/-- The hash that a rejection in place of the approval would have. -/
def rejectionHash : Bytes :=
  [63, 53, 47, 231, 24, 18, 160, 197, 78, 39, 216, 201, 123, 240, 13, 136, 131, 29, 110,
    247, 106, 147, 144, 17, 112, 75, 105, 95, 65, 113, 216, 45]

/-- The approval in the chain above, moved to another plan and turned into a rejection. -/
theorem verifyChain_set_of_accepted_shortChain :
    verifyChain rungDigest (shortChain.set 1 ⟨2, 1, some 6, .approved, some 11, .human,
        "\x7b\"rung\":0\x7d".toUTF8.toList, expiryHash, approvalHash, unixEpoch + 1⟩) =
      (-1, none) ∧
    verifyChain rungDigest (shortChain.set 1 ⟨2, 1, some 5, .rejected, some 11, .human,
        "\x7b\"rung\":0\x7d".toUTF8.toList, expiryHash, approvalHash, unixEpoch + 1⟩) ≠
      (-1, none) := by
  have both := verifyChain_set_of_accepted rungDigest shortChain accepted_shortChain 1 _ rfl
  constructor
  · exact both.1 (some 6) 1
  · refine both.2 ⟨2, 1, some 5, .rejected, some 11, .human, _, _, _, _⟩ rfl rfl (by decide)
      (by decide) ?_ ?_
    · apply collisionFree_of_hashes "\x7b\"rung\":0\x7d".toUTF8.toList fun row =>
        if row.eventKind = .rejected then rejectionHash else row.rowHash
      all_goals decide +kernel
    · intro same
      exact absurd same.eventKind (by decide)

theorem CollisionFree.mono {digest : Digest} {rows more : List AuditRow}
    (free : CollisionFree digest more) (subset : rows ⊆ more) : CollisionFree digest rows := by
  have larger : ∀ input, Hashed digest rows input → Hashed digest more input := by
    rintro input ⟨row, member, rest⟩
    exact ⟨row, subset member, rest⟩
  intro input input' hashed hashed'
  exact free input input' (larger input hashed) (larger input' hashed')

/-- The approval is moved to another plan and `VerifyChain` does not notice. -/
theorem reattributed_shortChain :
    ¬ ∀ (rows : List AuditRow) (index : Nat) (row : AuditRow) (planID : UUID),
      CollisionFree rungDigest rows → verifyChain rungDigest rows = (-1, none) →
      rows[index]? = some row → row.planID ≠ some planID →
      verifyChain rungDigest (rows.set index { row with planID := some planID }) ≠
        (-1, none) := by
  intro evident
  apply evident shortChain 1 _ 6 (collisionFree_short.mono (List.subset_append_left _ _))
    accepted_shortChain rfl (by decide)
  exact verifyChain_set_of_sameContent accepted_shortChain rfl rfl rfl
    ⟨rfl, rfl, rfl, rfl, rfl⟩

end GitScale.Approval
