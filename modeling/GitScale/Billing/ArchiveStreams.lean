import GitScale.Billing.ArchiveFormat
import GitScale.Foundation.Feed

/-!
# The two loops of the archive

The export reads the plaintext off a pipe and writes a frame for each buffer that it fills; the
restore reads the frames back and writes what they hold.  Each loop sees its input in whatever
pieces the reader delivers.
-/

namespace GitScale.Billing

open Foundation

section Loops

variable (codec : Codec) (key : Bytes) (partition : String)

/-- The frame of a chunk. -/
def chunkFrame (nonces : Nat → Bytes) (index : Nat) (chunk : Bytes) : Bytes :=
  frameOf (nonces index) (codec.sealChunk key (nonces index) chunk (chunkAAD partition index))

/-- The encrypt loop of `ExportActivity.Execute` from chunk `index` on, in at most `fuel` turns:
what it writes to the pipe. -/
def encryptLoop (nonces : Nat → Bytes) : Nat → Nat → Feed UInt8 → Option Bytes
  | 0, _, _ => none
  | fuel + 1, index, plaintext =>
      match plaintext.fill chunkSize with
      | (.full chunk, rest) =>
          (encryptLoop nonces fuel (index + 1) rest).map
            (chunkFrame codec key partition nonces index chunk ++ ·)
      | (.short chunk, _) => some (chunkFrame codec key partition nonces index chunk)
      | (.ended, _) => some []

/-- The loop of `DecodeStream` from chunk `index` on, in at most `fuel` turns: what it returns
and all that was written. -/
def decodeLoop : Nat → Nat → Feed UInt8 → Bytes → Option (Except RestoreError Unit × Bytes)
  | 0, _, _, _ => none
  | fuel + 1, index, stream, written =>
      match stream.fill 4 with
      | (.ended, _) => some (.ok (), written)
      | (.short _, _) => some (.error (tampered "truncated length prefix" index), written)
      | (.full header, stream) =>
          let payloadLen := Go.uint32 header
          if payloadLen < 28 then
            some (.error (tampered
              ("payload_len " ++ toString payloadLen ++ " < nonce+tag") index), written)
          else if maxFramePayloadBytes < payloadLen then
            some (.error (tampered
              ("payload_len " ++ toString payloadLen ++ " exceeds cap") index), written)
          else
            match stream.fill payloadLen with
            | (.full payload, stream) =>
                match codec.openChunk key (payload.take 12) (payload.drop 12)
                    (chunkAAD partition index) with
                | none =>
                    some (.error (.frameTampered
                      ("billing/restore: frame tampered or DEK mismatch: chunk " ++
                        toString index ++ " open: cipher: message authentication failed")),
                      written)
                | some plaintext => decodeLoop fuel (index + 1) stream (written ++ plaintext)
            | _ => some (.error (tampered "truncated payload" index), written)

/-- `DecodeStream` on a reader, in at most `fuel` turns of its loop. -/
def decodeReader (fuel : Nat) (stream : Feed UInt8) : Option (Except RestoreError Unit × Bytes) :=
  if key.length ≠ 32 then
    some (.error (.other ("billing/restore: DEK must be 32 bytes, got " ++
      toString key.length)), [])
  else decodeLoop codec key partition fuel 0 stream []

variable {codec key partition} {nonces : Nat → Bytes}

/-- The encrypt loop writes the frames of the chunks of what it reads. -/
theorem encryptLoop_eq : ∀ (fuel within index : Nat) (plaintext : Feed UInt8),
    plaintext.content.length < fuel → plaintext.content.length ≤ within →
    encryptLoop codec key partition nonces fuel index plaintext =
      some (encryptChunks codec key partition nonces index
        (chunksWithin chunkSize within plaintext.content)) := by
  intro fuel
  induction fuel with
  | zero =>
      intro within index plaintext enough
      cases enough
  | succ fuel inductionHypothesis =>
      intro within index plaintext enough fits
      have size : 0 < chunkSize := by decide
      rw [encryptLoop]
      by_cases nothing : plaintext.content = []
      · rcases Feed.fill_ended size nothing with ⟨rest, ended⟩
        rw [ended, nothing]
        cases within with
        | zero => rfl
        | succ within => rfl
      · rcases List.exists_cons_of_ne_nil nothing with ⟨first, others, content⟩
        obtain ⟨within, rfl⟩ : ∃ less, within = less + 1 := by
          rw [content, List.length_cons] at fits
          exact ⟨within - 1, by omega⟩
        have cut : chunksWithin chunkSize (within + 1) plaintext.content =
            plaintext.content.take chunkSize ::
              chunksWithin chunkSize within (plaintext.content.drop chunkSize) := by
          rw [content]
          rfl
        have shorter := List.length_drop (i := chunkSize) (l := plaintext.content)
        rw [cut, encryptChunks]
        by_cases full : chunkSize ≤ plaintext.content.length
        · rcases Feed.fill_full full with ⟨rest, filled, left⟩
          rw [filled]
          dsimp only
          rw [inductionHypothesis within (index + 1) rest (by rw [left]; omega)
            (by rw [left]; omega), left]
          rfl
        · rcases Feed.fill_short (Nat.not_le.mp full) nothing with ⟨rest, filled⟩
          have whole := Nat.le_of_lt (Nat.not_le.mp full)
          rw [filled, List.take_of_length_le whole, List.drop_of_length_le whole]
          cases within with
          | zero => simp [chunksWithin, encryptChunks, chunkFrame]
          | succ within => simp [chunksWithin, encryptChunks, chunkFrame]

/-- A run that had `written` behind it ends as the decoder does on the whole stream, with the
plaintext written when there is one. -/
def EndsAs (written : Bytes) (run : Option (Except RestoreError Unit × Bytes))
    (decoded : Except RestoreError Bytes) : Prop :=
  ∃ output, run = some (decoded.map fun _ => (), written ++ output) ∧
    ∀ plaintext, decoded = .ok plaintext → output = plaintext

theorem EndsAs.stop (written : Bytes) (error : RestoreError) :
    EndsAs written (some (.error error, written)) (.error error) := by
  refine ⟨[], by simp [Except.map], ?_⟩
  intro plaintext equal
  cases equal

theorem EndsAs.finish (written : Bytes) : EndsAs written (some (.ok (), written)) (.ok []) := by
  refine ⟨[], by simp [Except.map], ?_⟩
  intro plaintext equal
  exact Except.ok.inj equal

/-- A frame that opens adds its plaintext in front of what the later frames give. -/
theorem EndsAs.frame {written plaintext : Bytes}
    {run : Option (Except RestoreError Unit × Bytes)} {later : Except RestoreError Bytes}
    (ends : EndsAs (written ++ plaintext) run later) :
    EndsAs written run (later.map (plaintext ++ ·)) := by
  rcases ends with ⟨output, returned, writes⟩
  refine ⟨plaintext ++ output, ?_, ?_⟩
  · rw [returned, List.append_assoc]
    cases later with
    | error error => rfl
    | ok more => rfl
  · intro whole equal
    cases later with
    | error error => cases equal
    | ok more =>
        rw [writes more rfl]
        exact Except.ok.inj equal

/-- The loop of the restore reads off its pieces what the decoder reads off the whole stream: it
writes the plaintext of the frames that open, and returns the error of the first that does not. -/
theorem decodeLoop_agrees (codec : Codec) (key : Bytes) (partition : String) :
    ∀ (fuel within index : Nat) (stream : Feed UInt8) (written : Bytes),
      stream.content.length < fuel → stream.content.length ≤ within →
      EndsAs written (decodeLoop codec key partition fuel index stream written)
        (decodeFrames codec key partition within index stream.content) := by
  intro fuel
  induction fuel with
  | zero =>
      intro within index stream written enough
      cases enough
  | succ fuel inductionHypothesis =>
      intro within index stream written enough fits
      rw [decodeLoop]
      by_cases nothing : stream.content = []
      · rcases Feed.fill_ended (show 0 < 4 by decide) nothing with ⟨rest, ended⟩
        have decoded : decodeFrames codec key partition within index stream.content = .ok [] := by
          rw [nothing]
          cases within with
          | zero => rfl
          | succ within => rfl
        rw [ended, decoded]
        exact EndsAs.finish written
      · rcases List.exists_cons_of_ne_nil nothing with ⟨first, others, content⟩
        obtain ⟨within, rfl⟩ : ∃ less, within = less + 1 := by
          rw [content, List.length_cons] at fits
          exact ⟨within - 1, by omega⟩
        rw [decodeFrames, if_neg nothing]
        by_cases headed : 4 ≤ stream.content.length
        · rcases Feed.fill_full headed with ⟨rest, filled, left⟩
          rw [filled, readFull, if_pos headed]
          dsimp only
          have shorter := List.length_drop (i := 4) (l := stream.content)
          split
          · exact EndsAs.stop written _
          · split
            · exact EndsAs.stop written _
            · rename_i long capped
              rw [← left, readFull]
              by_cases whole : Go.uint32 (stream.content.take 4) ≤ rest.content.length
              · rcases Feed.fill_full whole with ⟨later, payload, remains⟩
                rw [payload, if_pos whole]
                dsimp only
                cases opened : codec.openChunk key _ _ (chunkAAD partition index) with
                | none => exact EndsAs.stop written _
                | some plaintext =>
                    have consumed := List.length_drop
                      (i := Go.uint32 (stream.content.take 4)) (l := rest.content)
                    have size := congrArg List.length remains
                    have restSize := congrArg List.length left
                    have ends := (inductionHypothesis within (index + 1) later
                      (written ++ plaintext) (by omega) (by omega)).frame
                    rw [remains] at ends
                    dsimp only
                    cases frames : decodeFrames codec key partition within (index + 1)
                        (rest.content.drop (Go.uint32 (stream.content.take 4))) with
                    | error error =>
                        rw [frames] at ends
                        exact ends
                    | ok more =>
                        rw [frames] at ends
                        exact ends
              · -- the payload ends early, in the middle or before its first byte
                rcases Feed.fill_few (by omega) (Nat.not_le.mp whole) with
                  ⟨payload, later, filled, cut⟩
                rw [if_neg whole, filled]
                cases payload with
                | full buffer => exact absurd rfl (cut buffer)
                | short buffer => exact EndsAs.stop written _
                | ended => exact EndsAs.stop written _
        · rcases Feed.fill_short (Nat.not_le.mp headed) nothing with ⟨rest, filled⟩
          rw [filled, readFull, if_neg headed]
          exact EndsAs.stop written _

/-- However the frames come, `DecodeStream` returns nil and writes the plaintext. -/
theorem decodeReader_encryptStream {codec : Codec} {key : Bytes} (fits : key.length = 32)
    {partition : String} {nonces : Nat → Bytes} (lengths : ∀ index, (nonces index).length = 12)
    {plaintext : Bytes} {stream : Feed UInt8}
    (same : stream.content = encryptStream codec key partition nonces plaintext) {fuel : Nat}
    (enough : stream.content.length < fuel) :
    decodeReader codec key partition fuel stream = some (.ok (), plaintext) := by
  have decoded : decodeStream codec key partition
      (encryptStream codec key partition nonces plaintext) = .ok plaintext :=
    decodeStream_encryptStream fits lengths plaintext
  rw [decodeStream, if_neg (not_not.mpr fits), ← same] at decoded
  rcases decodeLoop_agrees codec key partition fuel stream.content.length 0 stream [] enough
    (Nat.le_refl _) with ⟨output, returned, written⟩
  rw [decodeReader, if_neg (not_not.mpr fits), returned, written _ decoded, decoded]
  rfl

/-- For every plaintext, key of 32 bytes, partition name and choice of nonces, and however the two
readers cut their streams: `DecodeStream` on what the encrypt loop wrote returns nil and writes the
plaintext. -/
theorem archive_roundTrip (codec : Codec) (key : Bytes) (fits : key.length = 32)
    (partition : String) (nonces : Nat → Bytes) (lengths : ∀ index, (nonces index).length = 12)
    (plaintext : Feed UInt8) :
    ∃ frames,
      (∀ fuel, plaintext.content.length < fuel →
        encryptLoop codec key partition nonces fuel 0 plaintext = some frames) ∧
      ∀ stream : Feed UInt8, stream.content = frames → ∀ fuel, frames.length < fuel →
        decodeReader codec key partition fuel stream = some (.ok (), plaintext.content) := by
  refine ⟨encryptStream codec key partition nonces plaintext.content, ?_, ?_⟩
  · intro fuel enough
    exact encryptLoop_eq fuel _ 0 plaintext enough (Nat.le_refl _)
  · intro stream same fuel enough
    rw [← same] at enough
    exact decodeReader_encryptStream fits lengths same enough

end Loops

/-- A full chunk and one byte more, in three reads, one of them empty. -/
def twoChunks : Feed UInt8 := ⟨[List.replicate chunkSize 5, [], [3]], true⟩

/-- Another nonce for every chunk. -/
def numberedNonce (index : Nat) : Bytes := List.replicate 12 (UInt8.ofNat (index + 7))

theorem length_numberedNonce (index : Nat) : (numberedNonce index).length = 12 :=
  List.length_replicate

theorem content_twoChunks : twoChunks.content = List.replicate chunkSize 5 ++ [3] := by
  simp [twoChunks, Feed.content]

theorem chunks_twoChunks :
    chunks chunkSize (List.replicate chunkSize (5 : UInt8) ++ [3]) =
      [List.replicate chunkSize 5, [3]] := by
  have positive : 0 < chunkSize := by decide
  obtain ⟨less, size⟩ := Nat.exists_eq_succ_of_ne_zero (Nat.ne_of_gt positive)
  have full : (List.replicate chunkSize (5 : UInt8)).length = chunkSize := List.length_replicate
  have last : chunksWithin chunkSize chunkSize [(3 : UInt8)] = [[3]] := by
    rw [size]
    exact chunksWithin_of_length_le (List.cons_ne_nil _ _) (Nat.succ_le_succ (Nat.zero_le less))
  rw [chunks, List.length_append, full, List.length_singleton, chunksWithin_append positive full,
    last]

theorem archive_roundTrip_twoChunks :
    ∃ frames,
      (∀ fuel, chunkSize + 1 < fuel →
        encryptLoop default (List.replicate 32 0) "billing.usage_events_2026_05"
          numberedNonce fuel 0 twoChunks = some frames) ∧
      ∀ stream : Feed UInt8, stream.content = frames → ∀ fuel, frames.length < fuel →
        decodeReader default (List.replicate 32 0) "billing.usage_events_2026_05" fuel stream =
          some (.ok (), List.replicate chunkSize 5 ++ [3]) := by
  have trip := archive_roundTrip default (List.replicate 32 0) List.length_replicate
    "billing.usage_events_2026_05" numberedNonce length_numberedNonce twoChunks
  rw [content_twoChunks, List.length_append, List.length_replicate] at trip
  exact trip

end GitScale.Billing
