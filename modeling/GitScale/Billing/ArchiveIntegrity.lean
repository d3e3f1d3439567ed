import GitScale.Billing.ArchiveStreams
import GitScale.Go.Strconv

/-!
# What a decoded archive can hold

The associated data of a frame names the partition and the index of the chunk.  If nobody but the
export has sealed anything under the key, then a frame that opens is the frame that the export
wrote at this place, and a stream that is decoded without an error is a beginning of what the
export wrote.  Nothing in the format marks the last frame: `DecodeStream` takes the end of its
input on a frame boundary for the end of the archive.
-/

namespace GitScale.Billing

open Foundation

/-- The ideal AEAD as a stream sees it: what opens there is what the one export under the key has
sealed, with its nonce and its associated data. -/
def Unforged (codec : Codec) (key : Bytes) (partition : String) (nonces : Nat → Bytes)
    (parts : List Bytes) (stream : Bytes) : Prop :=
  ∀ nonce ciphertext aad plaintext, nonce ++ ciphertext <:+: stream →
    codec.openChunk key nonce ciphertext aad = some plaintext →
    ∃ index chunk, parts[index]? = some chunk ∧ nonce = nonces index ∧
      aad = chunkAAD partition index ∧
      ciphertext = codec.sealChunk key (nonces index) chunk (chunkAAD partition index)

/-! ## One frame -/

/-- The associated data binds a frame to its place. -/
theorem chunkAAD_injective {partition : String} {index other : Nat}
    (same : chunkAAD partition index = chunkAAD partition other) : index = other := by
  have texts := congrArg String.toList (Go.utf8_injective same)
  simp only [String.toList_append, List.append_cancel_left_eq] at texts
  have digits : Nat.toDigits 10 index = Nat.toDigits 10 other := by
    simpa [toString, Nat.repr] using texts
  exact Option.some.inj
    (by rw [← Go.parseUint_toDigits, digits, Go.parseUint_toDigits])

section Frames

variable {codec : Codec} {key : Bytes} {partition : String} {nonces : Nat → Bytes}

/-- A decoder that takes a frame off its stream. -/
theorem decodeFrames_succ_ok {fuel index : Nat} {stream written : Bytes} (more : stream ≠ [])
    (decoded : decodeFrames codec key partition (fuel + 1) index stream = .ok written) :
    ∃ header payload rest plaintext later,
      stream = header ++ payload ++ rest ∧ header.length = 4 ∧
      payload.length = Go.uint32 header ∧ 28 ≤ payload.length ∧
      codec.openChunk key (payload.take 12) (payload.drop 12) (chunkAAD partition index) =
        some plaintext ∧
      decodeFrames codec key partition fuel (index + 1) rest = .ok later ∧
      written = plaintext ++ later := by
  rw [decodeFrames, if_neg more] at decoded
  unfold readFull at decoded
  by_cases headed : 4 ≤ stream.length
  · rw [if_pos headed] at decoded
    dsimp only at decoded
    split at decoded
    · cases decoded
    · rename_i long
      split at decoded
      · cases decoded
      · by_cases whole : Go.uint32 (stream.take 4) ≤ (stream.drop 4).length
        · rw [if_pos whole] at decoded
          dsimp only at decoded
          split at decoded
          · cases decoded
          · rename_i plaintext opened
            split at decoded
            · cases decoded
            · rename_i later rest
              have size := List.length_take_of_le whole
              refine ⟨stream.take 4, (stream.drop 4).take (Go.uint32 (stream.take 4)), _, plaintext,
                later, ?_, List.length_take_of_le headed, size, ?_, opened, rest,
                (Except.ok.inj decoded).symm⟩
              · rw [List.append_assoc, List.take_append_drop, List.take_append_drop]
              · rw [size]
                exact Nat.not_lt.mp long
        · rw [if_neg whole] at decoded
          cases decoded
  · rw [if_neg headed] at decoded
    cases decoded

/-- A frame that opens is the one that the export wrote at this place. -/
theorem frame_eq_of_unforged {parts : List Bytes} {index : Nat}
    {header payload rest plaintext : Bytes}
    (unforged : Unforged codec key partition nonces parts (header ++ payload ++ rest))
    (four : header.length = 4) (size : payload.length = Go.uint32 header)
    (opened : codec.openChunk key (payload.take 12) (payload.drop 12)
      (chunkAAD partition index) = some plaintext) :
    parts[index]? = some plaintext ∧
      header ++ payload = frameOf (nonces index)
        (codec.sealChunk key (nonces index) plaintext (chunkAAD partition index)) := by
  have inside : payload.take 12 ++ payload.drop 12 <:+: header ++ payload ++ rest := by
    rw [List.take_append_drop]
    exact ⟨header, rest, rfl⟩
  obtain ⟨place, chunk, present, nonce, aad, ciphertext⟩ := unforged _ _ _ _ inside opened
  obtain rfl := chunkAAD_injective aad
  rw [nonce, ciphertext, codec.open_seal] at opened
  obtain rfl := Option.some.inj opened
  have whole : payload = nonces index ++
      codec.sealChunk key (nonces index) chunk (chunkAAD partition index) := by
    rw [← ciphertext, ← nonce, List.take_append_drop]
  refine ⟨present, ?_⟩
  rw [frameOf, ← List.length_append, ← whole, size, Go.putUint32_uint32 four, List.append_assoc,
    ← whole]

/-! ## The whole stream -/

theorem Unforged.suffix {parts : List Bytes} {front rest : Bytes}
    (unforged : Unforged codec key partition nonces parts (front ++ rest)) :
    Unforged codec key partition nonces parts rest :=
  fun nonce ciphertext aad plaintext inside opened =>
    unforged nonce ciphertext aad plaintext (inside.trans (List.suffix_append _ _).isInfix) opened

/-- What the decoder takes off the stream from a place on are the frames of the export from this
place on, up to some frame. -/
theorem decodeFrames_unforged {parts : List Bytes} : ∀ (fuel index : Nat) (stream written : Bytes),
    stream.length ≤ fuel → Unforged codec key partition nonces parts stream →
    decodeFrames codec key partition fuel index stream = .ok written →
    ∃ count,
      stream = encryptChunks codec key partition nonces index ((parts.drop index).take count) ∧
      written = ((parts.drop index).take count).flatten := by
  intro fuel
  induction fuel with
  | zero =>
      intro index stream written enough unforged decoded
      rw [List.length_eq_zero_iff.mp (Nat.le_zero.mp enough)]
      exact ⟨0, rfl, (Except.ok.inj decoded).symm⟩
  | succ fuel inductionHypothesis =>
      intro index stream written enough unforged decoded
      by_cases nothing : stream = []
      · rw [decodeFrames, if_pos nothing] at decoded
        rw [nothing]
        exact ⟨0, rfl, (Except.ok.inj decoded).symm⟩
      · obtain ⟨header, payload, rest, plaintext, later, rfl, four, size, -, opened, decodedRest,
          rfl⟩ := decodeFrames_succ_ok nothing decoded
        obtain ⟨present, frame⟩ := frame_eq_of_unforged unforged four size opened
        have shorter : rest.length ≤ fuel := by
          rw [List.length_append, List.length_append] at enough
          omega
        obtain ⟨count, restFrames, rfl⟩ :=
          inductionHypothesis (index + 1) rest later shorter unforged.suffix decodedRest
        obtain ⟨inRange, same⟩ := List.getElem?_eq_some_iff.mp present
        have cut : parts.drop index = plaintext :: parts.drop (index + 1) := by
          rw [← same, List.drop_eq_getElem_cons inRange]
        refine ⟨count + 1, ?_, ?_⟩
        · rw [cut, List.take_succ_cons, encryptChunks, ← restFrames, frame]
        · rw [cut, List.take_succ_cons, List.flatten_cons]

theorem encryptChunks_append (front rest : List Bytes) (index : Nat) :
    encryptChunks codec key partition nonces index (front ++ rest) =
      encryptChunks codec key partition nonces index front ++
        encryptChunks codec key partition nonces (index + front.length) rest := by
  induction front generalizing index with
  | nil => rfl
  | cons chunk front inductionHypothesis =>
      rw [List.cons_append, encryptChunks, inductionHypothesis, encryptChunks, List.append_assoc,
        List.length_cons, Nat.add_right_comm]
      rfl

/-- A stream that stops at a frame is whole exactly when its plaintext is. -/
theorem flatten_take_eq_iff (plaintext : Bytes) (count : Nat) :
    ((chunks chunkSize plaintext).take count).flatten = plaintext ↔
      encryptChunks codec key partition nonces 0 ((chunks chunkSize plaintext).take count) =
        encryptStream codec key partition nonces plaintext := by
  generalize split : (chunks chunkSize plaintext).drop count = missing
  have whole : (chunks chunkSize plaintext).take count ++ missing =
      chunks chunkSize plaintext := by
    rw [← split, List.take_append_drop]
  have nonempty : ∀ chunk ∈ missing, chunk ≠ [] := by
    intro chunk member
    rw [← split] at member
    exact ne_nil_of_mem_chunksWithin (by decide) (List.mem_of_mem_drop member)
  have flattened : ((chunks chunkSize plaintext).take count).flatten ++ missing.flatten =
      plaintext := by
    rw [← List.flatten_append, whole, flatten_chunks (by decide)]
  have encrypted : encryptStream codec key partition nonces plaintext =
      encryptChunks codec key partition nonces 0 ((chunks chunkSize plaintext).take count) ++
        encryptChunks codec key partition nonces
          (0 + ((chunks chunkSize plaintext).take count).length) missing := by
    rw [← encryptChunks_append, whole]
    rfl
  generalize (chunks chunkSize plaintext).take count = present at *
  constructor
  · intro complete
    rw [complete] at flattened
    have noneMissing : missing = [] := by
      cases missing with
      | nil => rfl
      | cons chunk rest =>
          have empty := List.append_right_eq_self.mp flattened
          rw [List.flatten_cons, List.append_eq_nil_iff] at empty
          exact absurd empty.1 (nonempty chunk List.mem_cons_self)
    rw [encrypted, noneMissing, encryptChunks, List.append_nil]
  · intro complete
    have empty := List.append_right_eq_self.mp (encrypted.symm.trans complete.symm)
    have length : missing.length ≤
        (encryptChunks codec key partition nonces (0 + present.length) missing).length :=
      length_le_length_encryptChunks missing _
    rw [empty, List.length_nil, Nat.le_zero, List.length_eq_zero_iff] at length
    rw [← flattened, length, List.flatten_nil, List.append_nil]

/-- Whatever the stream and the pieces it comes in, `DecodeStream` returns, and if it returns nil
the stream is a number of frames from the beginning of the export, byte for byte, and the bytes
written are the plaintext of these.  They are the whole plaintext exactly if no frame is missing
at the end. -/
theorem decodeReader_unforged (codec : Codec) (key : Bytes) (partition : String)
    (nonces : Nat → Bytes) (plaintext : Bytes) (stream : Feed UInt8)
    (unforged : Unforged codec key partition nonces (chunks chunkSize plaintext) stream.content)
    (fuel : Nat) (enough : stream.content.length < fuel) :
    ∃ returned written, decodeReader codec key partition fuel stream = some (returned, written) ∧
      (returned = .ok () →
        (∃ count,
          stream.content = encryptChunks codec key partition nonces 0
            ((chunks chunkSize plaintext).take count) ∧
          written = ((chunks chunkSize plaintext).take count).flatten) ∧
        (written = plaintext ↔
          stream.content = encryptStream codec key partition nonces plaintext)) := by
  by_cases fits : key.length = 32
  · obtain ⟨output, returned, writes⟩ := decodeLoop_agrees codec key partition fuel
      stream.content.length 0 stream [] enough (Nat.le_refl _)
    rw [decodeReader, if_neg (not_not.mpr fits), returned]
    refine ⟨_, _, rfl, ?_⟩
    cases decoded : decodeFrames codec key partition stream.content.length 0 stream.content with
    | error error =>
        intro succeeds
        cases succeeds
    | ok plain =>
        intro _
        obtain ⟨count, frames, taken⟩ :=
          decodeFrames_unforged _ 0 stream.content plain (Nat.le_refl _) unforged decoded
        rw [List.drop_zero] at frames taken
        rw [List.nil_append, writes plain decoded]
        refine ⟨⟨count, frames, taken⟩, ?_⟩
        rw [taken, frames]
        exact flatten_take_eq_iff plaintext count
  · rw [decodeReader, if_pos fits]
    refine ⟨_, _, rfl, ?_⟩
    intro succeeds
    cases succeeds

end Frames

/-! ## An export of two chunks -/

/-- The bytes are those of a chunk of the export, with its nonce and its place. -/
def Exported (parts : List Bytes) (nonce plaintext aad : Bytes) : Prop :=
  ∃ index < parts.length, parts[index]? = some plaintext ∧ nonce = numberedNonce index ∧
    aad = chunkAAD "billing.usage_events_2026_05" index

instance decidableExported (parts : List Bytes) (nonce plaintext aad : Bytes) :
    Decidable (Exported parts nonce plaintext aad) :=
  inferInstanceAs (Decidable (∃ index < parts.length, _))

/-- The tag of the chunks of the export, and another tag for everything else. -/
def tagOf (parts : List Bytes) (nonce plaintext aad : Bytes) : Bytes :=
  if Exported parts nonce plaintext aad then List.replicate 16 1 else List.replicate 16 2

theorem length_tagOf (parts : List Bytes) (nonce plaintext aad : Bytes) :
    (tagOf parts nonce plaintext aad).length = 16 := by
  unfold tagOf
  split
  · rfl
  · rfl

theorem tagOf_exported {parts : List Bytes} {index : Nat} {chunk : Bytes}
    (found : parts[index]? = some chunk) :
    tagOf parts (numberedNonce index) chunk (chunkAAD "billing.usage_events_2026_05" index) =
      List.replicate 16 1 :=
  if_pos ⟨index, (List.getElem?_eq_some_iff.mp found).1, found, rfl, rfl⟩

/-- A codec that opens what carries the right tag. -/
def tagged (parts : List Bytes) : Codec :=
  { (default : Codec) with
    sealChunk := fun _ nonce plaintext aad => plaintext ++ tagOf parts nonce plaintext aad
    openChunk := fun _ nonce ciphertext aad =>
      if 16 ≤ ciphertext.length ∧ ciphertext.drop (ciphertext.length - 16) =
          tagOf parts nonce (ciphertext.take (ciphertext.length - 16)) aad then
        some (ciphertext.take (ciphertext.length - 16))
      else none
    open_seal := by
      intro key nonce plaintext aad
      simp [length_tagOf]
    length_seal := by
      intro key nonce plaintext aad
      simp [length_tagOf] }

theorem sealChunk_tagged {parts : List Bytes} {index : Nat} {chunk : Bytes}
    (found : parts[index]? = some chunk) (key : Bytes) :
    (tagged parts).sealChunk key (numberedNonce index) chunk
      (chunkAAD "billing.usage_events_2026_05" index) = chunk ++ List.replicate 16 1 := by
  rw [← tagOf_exported found]
  rfl

theorem unforged_tagged (parts : List Bytes) {stream : Bytes} (few : stream.count 2 < 16) :
    Unforged (tagged parts) (List.replicate 32 0) "billing.usage_events_2026_05" numberedNonce
      parts stream := by
  intro nonce ciphertext aad plaintext inside opened
  simp only [tagged] at opened
  split at opened
  · rename_i right
    by_cases own : Exported parts nonce (ciphertext.take (ciphertext.length - 16)) aad
    · obtain ⟨index, -, found, rfl, rfl⟩ := own
      refine ⟨index, _, found, rfl, rfl, ?_⟩
      rw [tagOf_exported found] at right
      calc ciphertext
          = ciphertext.take (ciphertext.length - 16) ++
              ciphertext.drop (ciphertext.length - 16) := (List.take_append_drop _ _).symm
        _ = ciphertext.take (ciphertext.length - 16) ++ List.replicate 16 1 := by rw [right.2]
        _ = _ := (sealChunk_tagged found _).symm
    · -- the tag of everything else is not in the stream
      rw [tagOf, if_neg own] at right
      have counted : 16 ≤ stream.count 2 := by
        calc 16 = (ciphertext.drop (ciphertext.length - 16)).count 2 := by
              rw [right.2]
              rfl
          _ ≤ ciphertext.count 2 := (List.drop_sublist _ _).count_le 2
          _ ≤ (nonce ++ ciphertext).count 2 := (List.sublist_append_right _ _).count_le 2
          _ ≤ stream.count 2 := inside.sublist.count_le 2
      exact absurd counted (Nat.not_le.mpr few)
  · cases opened

/-- The codec under which the two chunks were exported. -/
def twoChunksCodec : Codec := tagged [List.replicate chunkSize 5, [3]]

/-- The archive of the two chunks, in one read. -/
def sealedChunks : Feed UInt8 :=
  ⟨[encryptStream twoChunksCodec (List.replicate 32 0) "billing.usage_events_2026_05"
    numberedNonce (List.replicate chunkSize 5 ++ [3])], false⟩

theorem content_sealedChunks :
    sealedChunks.content = encryptStream twoChunksCodec (List.replicate 32 0)
      "billing.usage_events_2026_05" numberedNonce (List.replicate chunkSize 5 ++ [3]) := by
  simp [sealedChunks, Feed.content]

theorem count_sealedChunks : sealedChunks.content.count 2 < 16 := by
  have first : twoChunksCodec.sealChunk (List.replicate 32 0) (numberedNonce 0)
      (List.replicate chunkSize 5) (chunkAAD "billing.usage_events_2026_05" 0) =
        List.replicate chunkSize 5 ++ List.replicate 16 1 := sealChunk_tagged rfl _
  have second : twoChunksCodec.sealChunk (List.replicate 32 0) (numberedNonce 1) [3]
      (chunkAAD "billing.usage_events_2026_05" 1) = [3] ++ List.replicate 16 1 :=
    sealChunk_tagged rfl _
  rw [content_sealedChunks, encryptStream, chunks_twoChunks]
  simp only [encryptChunks, frameOf]
  rw [first, second]
  simp only [numberedNonce, List.count_append, List.count_replicate, List.length_append,
    List.length_replicate]
  decide

theorem decodeReader_unforged_sealedChunks :
    decodeReader twoChunksCodec (List.replicate 32 0) "billing.usage_events_2026_05"
        (sealedChunks.content.length + 1) sealedChunks =
      some (.ok (), List.replicate chunkSize 5 ++ [3]) ∧
    ∃ returned written, decodeReader twoChunksCodec (List.replicate 32 0)
        "billing.usage_events_2026_05" (sealedChunks.content.length + 1) sealedChunks =
          some (returned, written) ∧
      (returned = .ok () →
        (∃ count,
          sealedChunks.content = encryptChunks twoChunksCodec (List.replicate 32 0)
            "billing.usage_events_2026_05" numberedNonce 0
            (([List.replicate chunkSize 5, [3]] : List Bytes).take count) ∧
          written = (([List.replicate chunkSize 5, [3]] : List Bytes).take count).flatten) ∧
        (written = List.replicate chunkSize 5 ++ [3] ↔
          sealedChunks.content = encryptStream twoChunksCodec (List.replicate 32 0)
            "billing.usage_events_2026_05" numberedNonce (List.replicate chunkSize 5 ++ [3]))) := by
  constructor
  · exact decodeReader_encryptStream rfl length_numberedNonce content_sealedChunks
      (Nat.lt_add_one _)
  · have unforged : Unforged twoChunksCodec (List.replicate 32 0) "billing.usage_events_2026_05"
        numberedNonce (chunks chunkSize (List.replicate chunkSize 5 ++ [3]))
          sealedChunks.content := by
      rw [chunks_twoChunks]
      exact unforged_tagged _ count_sealedChunks
    have decoded := decodeReader_unforged _ _ _ _ _ sealedChunks unforged
      (sealedChunks.content.length + 1) (Nat.lt_add_one _)
    rw [chunks_twoChunks] at decoded
    exact decoded

/-- Without its only frame the archive is still decoded, to nothing. -/
theorem truncated_archive_is_decoded :
    ¬ ∀ (codec : Codec) (key : Bytes) (partition : String) (nonces : Nat → Bytes)
      (plaintext : Bytes) (stream : Feed UInt8),
      Unforged codec key partition nonces (chunks chunkSize plaintext) stream.content →
      ∀ (fuel : Nat) (written : Bytes),
        decodeReader codec key partition fuel stream = some (.ok (), written) →
        written = plaintext := by
  intro always
  have empty := always (tagged [[1, 2, 3]]) (List.replicate 32 0) "billing.usage_events_2026_05"
    numberedNonce [1, 2, 3] ⟨[], false⟩ (unforged_tagged [[1, 2, 3]] (by decide)) 1 [] rfl
  cases empty

end GitScale.Billing
