import Smux.Codec.RoundTrip
import Smux.Codec.Arrival

/-!
# The frames a decoder accepts

`HeaderOk` is the header grammar of the protocol, over the little-endian
readings of the bytes. `acceptsExactly`: a decode yields a frame exactly from
a buffer that starts with a complete frame of the grammar, and the frame is
what the bytes say. `canonical`: it is also what the bytes are the encoding
of, so that no frame has two encodings.
-/

namespace Smux

open LittleEndian BufM

namespace Codec

-- ---------------------------------------------------------------------------
-- The grammar
-- ---------------------------------------------------------------------------

/-- The header grammar, for the protocol versions in `supported`. -/
structure HeaderOk (supported : UInt8 → Prop) (config : Config) (src : Bytes) : Prop where
  version : supported (versionOf src)
  command : cmdByteOf src ≤ Command.UPD
  upd : cmdByteOf src = Command.UPD → 2 ≤ versionOf src ∧ lengthOf src = 8
  control : cmdByteOf src = Command.SYN ∨ cmdByteOf src = Command.FIN ∨
    cmdByteOf src = Command.NOP → lengthOf src = 0
  streamId : streamIdOf src = 0 ↔ cmdByteOf src = Command.NOP
  size : headerSize + lengthOf src ≤ config.maxFrameSize

def payloadAt (src : Bytes) : Bytes := (src.drop headerSize).take (lengthOf src)

def commandAt (src : Bytes) : Command :=
  if cmdByteOf src = Command.SYN then .syn
  else if cmdByteOf src = Command.FIN then .fin
  else if cmdByteOf src = Command.PSH then .psh
  else if cmdByteOf src = Command.NOP then .nop
  else
    .upd (UInt32.ofNat (leValue ((payloadAt src).take 4)))
      (UInt32.ofNat (leValue (((payloadAt src).drop 4).take 4)))

/-- The frame that the bytes at the front of `src` say: the payload of a
window update is in its command. -/
def frameAt (src : Bytes) : Frame where
  version := versionOf src
  cmd := commandAt src
  streamId := streamIdOf src
  data := if cmdByteOf src = Command.UPD then [] else payloadAt src

/-- `src` starts with a complete frame of the grammar, which is `frame`. -/
structure Grammar (supported : UInt8 → Prop) (config : Config) (src : Bytes) (frame : Frame) :
    Prop where
  header : HeaderOk supported config src
  complete : headerSize + lengthOf src ≤ src.length
  frame_eq : frame = frameAt src

-- ---------------------------------------------------------------------------
-- What is accepted
-- ---------------------------------------------------------------------------

section
variable {config : Config} {version : UInt8} {cmd : Command} {streamId : UInt32} {data src rest : Bytes}
  {frame : Frame}

theorem decode_eq_some {self : Codec} :
    self.decode.run' src = (.ok (some frame), rest) ↔
      ∃ cmd, Command.fromByte (cmdByteOf src) = .ok cmd ∧
        headerSize + lengthOf src ≤ self.maxFrameSize ∧
        headerSize + lengthOf src ≤ src.length ∧
        frameOf self.config (versionOf src) cmd (streamIdOf src) (payloadAt src) = .ok frame ∧
        rest = src.drop (headerSize + lengthOf src) := by
  refine ⟨decode_some, ?_⟩
  rintro ⟨cmd, hc, hmax, hlen, hf, rfl⟩
  have hf : frameOf self.config (versionOf src) cmd (streamIdOf src)
      ((src.drop headerSize).take (lengthOf src)) = .ok frame := hf
  rw [decode_run, if_neg (by omega), hc]
  dsimp only
  rw [if_neg (by omega), if_neg (by omega), hf]
  rfl

theorem validate_bind : (do frame.validate config; return frame : Result Frame) = .ok frame' ↔
    frame' = frame ∧ frame.Valid config := by
  rw [← Frame.validate_ok]
  cases frame.validate config with
  | error e => simp [bind, Except.bind]
  | ok u => simp [bind, Except.bind, pure, Except.pure, eq_comm]

theorem frameOf_ok (hc : cmd.requiresV2 = false) :
    frameOf config version cmd streamId data = .ok frame ↔
      frame = ⟨version, cmd, streamId, data⟩ ∧ frame.Valid config := by
  have hframe : frameOf config version cmd streamId data =
      (do (Frame.new version cmd streamId data).validate config
          return Frame.new version cmd streamId data) := by
    cases cmd with
    | upd consumed window => cases hc
    | _ => rfl
  rw [hframe, validate_bind]
  constructor <;> (rintro ⟨rfl, hv⟩; exact ⟨rfl, hv⟩)

theorem decodeUpdData_ok (h : data.length = 8) : decodeUpdData data =
    .ok (UInt32.ofNat (leValue (data.take 4)), UInt32.ofNat (leValue ((data.drop 4).take 4))) := by
  rw [decodeUpdData, if_neg (by omega)]
  simp only [getU32Le, run'_bind, run'_splitTo, run'_pure]

theorem frameOf_upd (consumed window : UInt32) :
    frameOf config version (.upd consumed window) streamId data = .ok frame ↔
      2 ≤ version ∧ data.length = 8 ∧
        frame = ⟨version, .upd (UInt32.ofNat (leValue (data.take 4)))
          (UInt32.ofNat (leValue ((data.drop 4).take 4))), streamId, []⟩ ∧ frame.Valid config := by
  unfold frameOf
  by_cases hv : version ≥ 2
  · simp only [hv, if_true]
    by_cases hlen : data.length = 8
    · rw [decodeUpdData_ok hlen]
      refine validate_bind.trans ?_
      constructor
      · rintro ⟨rfl, hvalid⟩
        exact ⟨trivial, hlen, rfl, hvalid⟩
      · rintro ⟨-, -, rfl, hvalid⟩
        exact ⟨rfl, hvalid⟩
    · rw [decodeUpdData, if_pos hlen]
      simp [hlen, bind, Except.bind]
  · simp only [hv, if_false]
    refine iff_of_false ?_ fun h => h.1
    -- validation refuses a window update of version 1
    intro h
    obtain ⟨rfl, hvalid⟩ := validate_bind.mp h
    exact hv (hvalid.upd_version rfl)

theorem payloadAt_length (h : headerSize + lengthOf src ≤ src.length) :
    (payloadAt src).length = lengthOf src := by
  rw [payloadAt, List.length_take, List.length_drop]
  omega

theorem byte_of_fromByte {byte : UInt8} (h : Command.fromByte byte = .ok cmd) :
    byte = cmd.toByte := by
  unfold Command.fromByte at h
  repeat' split at h
  all_goals cases h
  all_goals assumption

theorem fromByte_of_le {byte : UInt8} (h : byte ≤ Command.UPD) :
    ∃ cmd, Command.fromByte byte = .ok cmd := by
  unfold Command.fromByte
  repeat' split
  all_goals first | exact ⟨_, rfl⟩ | skip
  simp only [Command.SYN, Command.FIN, Command.PSH, Command.NOP, Command.UPD] at *
  grind

theorem frameAt_of_byte (h : cmdByteOf src = cmd.toByte)
    (hc : cmd.requiresV2 = false) :
    cmdByteOf src ≠ Command.UPD ∧ frameAt src = ⟨versionOf src, cmd, streamIdOf src, payloadAt src⟩ := by
  cases cmd with
  | upd consumed window => cases hc
  | _ =>
    simp [frameAt, commandAt, h, Command.toByte, Command.SYN, Command.FIN, Command.PSH,
      Command.NOP, Command.UPD]

theorem frameAt_upd (h : cmdByteOf src = Command.UPD) : frameAt src =
    ⟨versionOf src, .upd (UInt32.ofNat (leValue ((payloadAt src).take 4)))
      (UInt32.ofNat (leValue (((payloadAt src).drop 4).take 4))), streamIdOf src, []⟩ := by
  simp [frameAt, commandAt, h, Command.SYN, Command.FIN, Command.PSH, Command.NOP, Command.UPD]

/-- A header of the grammar is one whose frame is valid. -/
theorem headerOk_of_byte (h : cmdByteOf src = cmd.toByte)
    (hc : cmd.requiresV2 = false)
    (hlen : headerSize + lengthOf src ≤ src.length) :
    HeaderOk (· ≠ 0) config src ↔
      Frame.Valid config ⟨versionOf src, cmd, streamIdOf src, payloadAt src⟩ := by
  have hpay := payloadAt_length hlen
  have hne := (frameAt_of_byte h hc).1
  have hnil : payloadAt src = [] ↔ lengthOf src = 0 := by rw [← hpay, List.length_eq_zero_iff]
  constructor
  · rintro ⟨hver, -, -, hcontrol, hid, hsize⟩
    rw [← hpay] at hsize
    refine ⟨hver, ?_, hsize, ?_, hid.trans ?_⟩ <;>
      cases cmd <;> simp_all [Command.toByte, Command.requiresV2, Command.isControl, Command.SYN,
        Command.FIN, Command.PSH, Command.NOP]
  · rintro ⟨hver, -, hsize, hcontrol, hid⟩
    rw [hpay] at hsize
    refine ⟨hver, ?_, fun h => absurd h hne, ?_, hid.trans ?_, hsize⟩ <;>
      cases cmd <;> simp_all [Command.toByte, Command.isControl, Command.SYN, Command.FIN,
        Command.PSH, Command.NOP, Command.UPD]

theorem headerOk_upd (h : cmdByteOf src = Command.UPD) {consumed window : UInt32} :
    HeaderOk (· ≠ 0) config src ↔
      2 ≤ versionOf src ∧ lengthOf src = 8 ∧ headerSize + lengthOf src ≤ config.maxFrameSize ∧
        Frame.Valid config ⟨versionOf src, .upd consumed window, streamIdOf src, []⟩ := by
  constructor
  · rintro ⟨hver, -, hupd, -, hid, hsize⟩
    obtain ⟨hv, h8⟩ := hupd h
    refine ⟨hv, h8, hsize, hver, fun _ => hv, ?_, fun _ => rfl, hid.trans ?_⟩
    · exact Nat.le_trans (Nat.le_add_right ..) hsize
    · simp [h, Command.UPD, Command.NOP]
  · rintro ⟨hv, h8, hsize, hver, -, -, -, hid⟩
    refine ⟨hver, ?_, fun _ => ⟨hv, h8⟩, ?_, hid.trans ?_, hsize⟩ <;>
      simp [h, Command.UPD, Command.NOP, Command.SYN, Command.FIN]

theorem decode_iff_grammar : (new config).decode.run' src = (.ok (some frame), rest) ↔
    Grammar (· ≠ 0) config src frame ∧ rest = src.drop (headerSize + lengthOf src) := by
  rw [decode_eq_some]
  constructor
  · rintro ⟨cmd, hc, hmax, hlen, hf, hrest⟩
    have hpay := payloadAt_length hlen
    have hbyte := byte_of_fromByte hc
    refine ⟨?_, hrest⟩
    cases cmd with
    | upd consumed window =>
      obtain ⟨hv, h8, rfl, hvalid⟩ := (frameOf_upd ..).mp hf
      exact ⟨(headerOk_upd hbyte).mpr ⟨hv, hpay.symm.trans h8, hmax, hvalid⟩, hlen,
        (frameAt_upd hbyte).symm⟩
    | _ =>
      obtain ⟨rfl, hvalid⟩ := (frameOf_ok rfl).mp hf
      exact ⟨(headerOk_of_byte hbyte rfl hlen).mpr hvalid, hlen,
        (frameAt_of_byte hbyte rfl).2.symm⟩
  · rintro ⟨⟨hheader, hlen, rfl⟩, hrest⟩
    obtain ⟨cmd, hc⟩ := fromByte_of_le hheader.command
    have hpay := payloadAt_length hlen
    have hbyte := byte_of_fromByte hc
    refine ⟨cmd, hc, hheader.size, hlen, ?_, hrest⟩
    cases cmd with
    | upd consumed window =>
      obtain ⟨hv, h8, -, hvalid⟩ := (headerOk_upd hbyte).mp hheader
      rw [frameAt_upd hbyte]
      exact (frameOf_upd ..).mpr ⟨hv, hpay.trans h8, rfl, hvalid⟩
    | _ =>
      rw [(frameAt_of_byte hbyte rfl).2]
      exact (frameOf_ok rfl).mpr ⟨rfl, (headerOk_of_byte hbyte rfl hlen).mp hheader⟩

end

/-- The decoder yields a frame exactly from a buffer that starts with one, and
never from a buffer whose header is not of the grammar. -/
structure AcceptsExactly (supported : UInt8 → Prop) (config : Config) : Prop where
  accepts : ∀ src frame, ((new config).decode.run' src).1 = .ok (some frame) ↔
    Grammar supported config src frame
  rejects : ∀ src, ¬HeaderOk supported config src →
    (∃ e, ((new config).decode.run' src).1 = .error e) ∨
      ((new config).decode.run' src).1 = .ok none ∧ src.length < headerSize + lengthOf src

theorem acceptsExactly (config : Config) : AcceptsExactly (· ≠ 0) config where
  accepts src frame := by
    constructor
    · exact fun h => (decode_iff_grammar.mp (Prod.ext h rfl)).1
    · exact fun h => congrArg Prod.fst (decode_iff_grammar.mpr ⟨h, rfl⟩)
  rejects src h := by
    cases hd : (new config).decode.run' src with
    | mk result rest =>
      rcases result with e | _ | frame
      · exact .inl ⟨e, rfl⟩
      · obtain ⟨-, hlen⟩ := decode_waits hd
        exact .inr ⟨rfl, by omega⟩
      · exact absurd (decode_iff_grammar.mp hd).1.header h

/-- Versions above 2 are taken for version 2. -/
theorem not_acceptsExactly_version3 :
    ((new .default).decode.run' [3, 0, 0, 0, 1, 0, 0, 0]).1 = .ok (some (.newSyn 3 1)) ∧
      ¬AcceptsExactly (fun version => version = 1 ∨ version = 2) .default := by
  have hdec : ((new .default).decode.run' [3, 0, 0, 0, 1, 0, 0, 0]).1 =
      .ok (some (.newSyn 3 1)) := by decide
  refine ⟨hdec, fun h => ?_⟩
  have hversion := ((h.accepts _ _).mp hdec).header.version
  revert hversion
  decide

-- ---------------------------------------------------------------------------
-- One encoding for each frame
-- ---------------------------------------------------------------------------

section
variable {config : Config} {src rest : Bytes} {frame : Frame}

theorem toByte_frameAt (h : cmdByteOf src ≤ Command.UPD) :
    (frameAt src).cmd.toByte = cmdByteOf src := by
  obtain ⟨cmd, hc⟩ := fromByte_of_le h
  have hbyte := byte_of_fromByte hc
  cases cmd with
  | upd consumed window => rw [frameAt_upd hbyte, hbyte]; rfl
  | _ => rw [(frameAt_of_byte hbyte rfl).2, hbyte]

theorem payload_frameAt (h : HeaderOk (· ≠ 0) config src)
    (hlen : headerSize + lengthOf src ≤ src.length) : payload (frameAt src) = payloadAt src := by
  obtain ⟨cmd, hc⟩ := fromByte_of_le h.command
  have hbyte := byte_of_fromByte hc
  cases cmd with
  | upd consumed window =>
    obtain ⟨hv, h8⟩ := h.upd hbyte
    have hpay : (payloadAt src).length = 8 := (payloadAt_length hlen).trans h8
    have hlow : leValue ((payloadAt src).take 4) % 2 ^ 32 = leValue (((payloadAt src).drop 0).take 4) :=
      Nat.mod_eq_of_lt (leValue_field_lt (payloadAt src) 0 4)
    have hhigh : leValue (((payloadAt src).drop 4).take 4) % 2 ^ 32 =
        leValue (((payloadAt src).drop 4).take 4) := Nat.mod_eq_of_lt (leValue_field_lt _ 4 4)
    rw [frameAt_upd hbyte]
    simp only [payload, ge_iff_le, hv, if_true, encodeUpdData, UInt32.toNat_ofNat']
    rw [hlow, hhigh, leBytes_field (Nat.le_of_lt (hpay ▸ by decide)), leBytes_field (Nat.le_of_eq hpay.symm),
      List.drop_zero, ← List.take_add, List.take_of_length_le (Nat.le_of_eq hpay)]
  | _ => rw [(frameAt_of_byte hbyte rfl).2]; rfl

/-- What a buffer says is what the encoder writes. -/
theorem wire_frameAt (h : HeaderOk (· ≠ 0) config src)
    (hlen : headerSize + lengthOf src ≤ src.length) :
    wire (frameAt src) = src.take (headerSize + lengthOf src) := by
  have hsize : 8 ≤ src.length := Nat.le_trans (Nat.le_add_right ..) hlen
  have hpay : (payload (frameAt src)).length = lengthOf src := by
    rw [payload_frameAt h hlen, payloadAt_length hlen]
  have hlt : lengthOf src < 65536 := UInt16.toNat_lt _
  have hversion : (versionOf src).toNat = leValue ((src.drop 0).take 1) := by
    rw [versionOf, UInt8.toNat_ofNat']
    exact Nat.mod_eq_of_lt (leValue_field_lt src 0 1)
  have hbyte : (cmdByteOf src).toNat = leValue ((src.drop 1).take 1) := by
    rw [cmdByteOf, UInt8.toNat_ofNat']
    exact Nat.mod_eq_of_lt (leValue_field_lt src 1 1)
  have hlength : lengthOf src = leValue ((src.drop 2).take 2) := by
    rw [lengthOf, UInt16.toNat_ofNat']
    exact Nat.mod_eq_of_lt (leValue_field_lt src 2 2)
  have hid : (streamIdOf src).toNat = leValue ((src.drop 4).take 4) := by
    rw [streamIdOf, UInt32.toNat_ofNat']
    exact Nat.mod_eq_of_lt (leValue_field_lt src 4 4)
  have hfields : wire (frameAt src) = leBytes 1 (versionOf src).toNat ++
      leBytes 1 (cmdByteOf src).toNat ++ leBytes 2 (lengthOf src) ++
      leBytes 4 (streamIdOf src).toNat ++ payloadAt src := by
    rw [wire, toByte_frameAt h.command, hpay, payload_frameAt h hlen, Nat.mod_eq_of_lt hlt]
    rfl
  rw [hfields, hversion, hbyte, hid]
  conv => lhs; rw [hlength]
  rw [leBytes_field (by omega), leBytes_field (by omega), leBytes_field (by omega),
    leBytes_field (by omega), List.drop_zero, payloadAt, ← List.take_add, ← List.take_add,
    ← List.take_add]
  exact (List.take_add (i := headerSize)).symm

theorem fits_of_decode (h : (new config).decode.run' src = (.ok (some frame), rest)) :
    Fits config frame ∧ src = wire frame ++ rest := by
  obtain ⟨⟨hheader, hlen, rfl⟩, rfl⟩ := decode_iff_grammar.mp h
  have hpay : (payload (frameAt src)).length = lengthOf src := by
    rw [payload_frameAt hheader hlen, payloadAt_length hlen]
  obtain ⟨cmd, hc, -, -, hf, -⟩ := decode_eq_some.mp h
  refine ⟨⟨?_, by rw [hpay]; exact hheader.size, by rw [hpay]; exact UInt16.toNat_lt _⟩, ?_⟩
  · cases cmd with
    | upd consumed window => exact ((frameOf_upd ..).mp hf).2.2.2
    | _ => exact ((frameOf_ok rfl).mp hf).2
  · rw [wire_frameAt hheader hlen, List.take_append_drop]

end

/-- A decoded frame is encoded as the bytes it was decoded from. -/
structure Canonical (codec : Codec) : Prop where
  reencodes : ∀ src frame rest, codec.decode.run' src = (.ok (some frame), rest) →
    ∃ bytes, src = bytes ++ rest ∧ ∀ dst, (codec.encode frame).run' dst = (.ok (), dst ++ bytes)
  unique : ∀ src src' frame rest rest', codec.decode.run' src = (.ok (some frame), rest) →
    codec.decode.run' src' = (.ok (some frame), rest') →
    ∃ bytes, src = bytes ++ rest ∧ src' = bytes ++ rest'

theorem canonical (config : Config) : Canonical (new config) where
  reencodes src frame rest h := by
    obtain ⟨hfits, hsrc⟩ := fits_of_decode h
    exact ⟨wire frame, hsrc, encode_of_fits hfits⟩
  unique src src' frame rest rest' h h' :=
    ⟨wire frame, (fits_of_decode h).2, (fits_of_decode h').2⟩

end Codec

end Smux
