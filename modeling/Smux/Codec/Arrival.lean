import Smux.Codec
import Smux.Lib.Incremental

/-!
# Decoding does not depend on how bytes arrive

`tokio_util`'s `Framed` appends each read to its buffer and calls `decode`
until it returns `None`, stopping at the first error. A decode looks at the
header and at the payload the header announces, and at nothing behind them,
so the cuts between the reads do not show.
-/

namespace Smux

open LittleEndian BufM

namespace Codec

section
variable {self : Codec} {src rest : Bytes}

/-- A `None` leaves the buffer as it was, and is returned only while the header
or the payload it announces is incomplete. -/
theorem decode_waits (h : self.decode.run' src = (.ok none, rest)) :
    rest = src ∧ (src.length < headerSize ∨
      src.length < headerSize + lengthOf src ∧ headerSize + lengthOf src ≤ self.maxFrameSize) := by
  rw [decode_run] at h
  split at h
  · cases h; exact ⟨rfl, .inl ‹_›⟩
  · split at h
    · cases h
    · split at h
      · cases h
      · split at h
        · cases h; exact ⟨rfl, .inr ⟨‹_›, by omega⟩⟩
        · obtain ⟨hf, -⟩ := Prod.mk.inj h
          cases hfr : frameOf self.config (versionOf src) _ (streamIdOf src)
              ((src.drop headerSize).take (lengthOf src)) <;> rw [hfr] at hf <;> cases hf

/-- A `None` is returned only while the buffer is shorter than the largest
frame. -/
theorem decode_none (h : self.decode.run' src = (.ok none, rest)) :
    rest = src ∧ src.length < max headerSize self.maxFrameSize := by
  obtain ⟨hrest, hlen⟩ := decode_waits h
  exact ⟨hrest, by omega⟩

theorem header_append (h : ¬src.length < headerSize) (more : Bytes) :
    versionOf (src ++ more) = versionOf src ∧ cmdByteOf (src ++ more) = cmdByteOf src ∧
      lengthOf (src ++ more) = lengthOf src ∧ streamIdOf (src ++ more) = streamIdOf src := by
  have field : ∀ i k, i + k ≤ 8 → ((src ++ more).drop i).take k = (src.drop i).take k := by
    intro i k hik
    have hlen : i + k ≤ src.length := by unfold headerSize at h; omega
    rw [List.drop_append_of_le_length (by omega), List.take_append_of_le_length]
    rw [List.length_drop]; omega
  refine ⟨?_, ?_, ?_, ?_⟩
  · exact congrArg (fun b => UInt8.ofNat (leValue b)) (field 0 1 (by omega))
  · exact congrArg (fun b => UInt8.ofNat (leValue b)) (field 1 1 (by omega))
  · exact congrArg (fun b => (UInt16.ofNat (leValue b)).toNat) (field 2 2 (by omega))
  · exact congrArg (fun b => UInt32.ofNat (leValue b)) (field 4 4 (by omega))

/-- Unless it asks for more, a decode takes no notice of what follows. -/
theorem decode_append (h : self.decode.run' src = (result, rest)) (hr : result ≠ .ok none)
    (more : Bytes) : self.decode.run' (src ++ more) = (result, rest ++ more) := by
  rw [decode_run] at h
  split at h
  · cases h; exact absurd rfl hr
  rename_i hshort
  obtain ⟨hver, hcmd, hlen, hsid⟩ := header_append hshort more
  have hshort' : ¬(src ++ more).length < headerSize := by rw [List.length_append]; omega
  rw [decode_run, if_neg hshort', hver, hcmd, hlen, hsid]
  -- the command byte is the same on both sides, so this splits the goal too
  split at h
  · cases h; rfl
  · split at h
    · rename_i hbig
      cases h
      rw [if_pos hbig]
    · rename_i hbig
      rw [if_neg hbig]
      split at h
      · cases h; exact absurd rfl hr
      · rename_i hfull
        cases h
        have hfull' : ¬(src ++ more).length < headerSize + lengthOf src := by
          rw [List.length_append]; omega
        rw [if_neg hfull', List.drop_append_of_le_length (by omega),
          List.drop_append_of_le_length (by omega),
          List.take_append_of_le_length (by rw [List.length_drop]; omega)]

end

/-- The decoder that `Framed` drives. -/
def decoder (self : Codec) : Decoder UInt8 SmuxError Frame where
  decode := self.decode.run'
  progress h := by
    obtain ⟨-, -, -, hlen, -, rfl⟩ := decode_some h
    rw [List.length_drop]
    unfold headerSize at *
    omega

theorem decoder_stable (self : Codec) : self.decoder.Stable where
  keeps_buf h := (decode_none h).1
  keeps_item more h := decode_append h (by simp) more
  keeps_error more h := decode_append h (by simp) more

/-- Reading the input in pieces gives the frames, the first error and the
unconsumed bytes of decoding it in one buffer; a `None` leaves the buffer
alone and is returned only on a short one; a frame takes its header and its
payload off the buffer. -/
theorem reads_irrelevant (config : Config) :
    (∀ reads : List Bytes,
      (new config).decoder.feed [] reads = (new config).decoder.drain reads.flatten) ∧
    (∀ src rest, (new config).decode.run' src = (.ok none, rest) →
      rest = src ∧ src.length < max headerSize config.maxFrameSize) ∧
    (∀ src frame rest, (new config).decode.run' src = (.ok (some frame), rest) →
      headerSize + lengthOf src ≤ src.length ∧ rest = src.drop (headerSize + lengthOf src)) := by
  refine ⟨fun reads => ?_, fun src rest h => decode_none h, fun src frame rest h => ?_⟩
  · exact (decoder_stable _).feed_eq_drain reads (by rfl)
  · obtain ⟨-, -, -, hlen, -, hrest⟩ := decode_some h
    exact ⟨hlen, hrest⟩

end Codec

end Smux
