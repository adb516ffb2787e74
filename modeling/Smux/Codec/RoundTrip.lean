import Smux.Codec

/-!
# Round trip of the codec

Frames are encoded one after another into one buffer and decoded from it
again. `roundTrips_iff`: every frame comes back as it was, with nothing of
what follows touched, exactly if no frame that passes validation is longer
than the 16-bit length field can say.
-/

namespace Smux

open LittleEndian BufM

namespace Codec

/-- Encode the frames one after another: those accepted, and the buffer. -/
def encodeAll (self : Codec) : List Frame → Bytes → List Frame × Bytes
  | [], dst => ([], dst)
  | frame :: frames, dst =>
    match (self.encode frame).run' dst with
    | (.ok (), dst') => (frame :: (self.encodeAll frames dst').1, (self.encodeAll frames dst').2)
    | (.error _, dst') => self.encodeAll frames dst'

/-- The results of `n` calls of `decode`, and the buffer they leave. -/
def decodeTimes (self : Codec) : Nat → Bytes → List (Result (Option Frame)) × Bytes
  | 0, src => ([], src)
  | n + 1, src =>
    let call := self.decode.run' src
    (call.1 :: (self.decodeTimes n call.2).1, (self.decodeTimes n call.2).2)

-- ---------------------------------------------------------------------------
-- Reading back what was written
-- ---------------------------------------------------------------------------

/-- A valid frame whose payload the length field can announce. -/
structure Fits (config : Config) (frame : Frame) : Prop where
  valid : frame.Valid config
  size : headerSize + (payload frame).length ≤ config.maxFrameSize
  length : (payload frame).length < 65536

theorem length_payload_lt {frame : Frame} (h : frame.data.length ≤ 65535) :
    (payload frame).length < 65536 := by
  unfold payload
  split
  · split
    · simp
    · omega
  · omega

theorem encode_fits {config : Config} {frame : Frame}
    (h : ((new config).encode frame).run' dst = (.ok (), dst')) (hlen : frame.data.length ≤ 65535) :
    Fits config frame := by
  have hpay := length_payload_lt hlen
  rw [encode_run] at h
  split at h
  · cases h
  · rename_i hv
    split at h <;> cases h
    rename_i hsize
    rw [Nat.mod_eq_of_lt hpay] at hsize
    exact ⟨Frame.validate_ok.mp hv, Nat.not_lt.mp hsize, hpay⟩

theorem encode_of_fits {config : Config} {frame : Frame} (h : Fits config frame) (dst : Bytes) :
    ((new config).encode frame).run' dst = (.ok (), dst ++ wire frame) := by
  have hsize : ¬headerSize + (payload frame).length % 65536 > (new config).maxFrameSize := by
    rw [Nat.mod_eq_of_lt h.length]
    exact Nat.not_lt.mpr h.size
  have hv : frame.validate (new config).config = .ok () := Frame.validate_ok.mpr h.valid
  rw [encode_run, hv]
  exact if_neg hsize

theorem decodeUpdData_encodeUpdData (consumed window : UInt32) :
    decodeUpdData (encodeUpdData consumed window) = .ok (consumed, window) := by
  have hc : leValue (leBytes 4 consumed.toNat) = consumed.toNat :=
    leValue_leBytes consumed.toNat_lt
  have hw : leValue (leBytes 4 window.toNat) = window.toNat := leValue_leBytes window.toNat_lt
  have htake : (leBytes 4 window.toNat).take 4 = leBytes 4 window.toNat :=
    List.take_of_length_le (by simp)
  rw [decodeUpdData, if_neg (by simp)]
  simp only [encodeUpdData, getU32Le, run'_bind, run'_splitTo, run'_pure, take_leBytes_append,
    drop_leBytes_append, htake, hc, hw, UInt32.ofNat_toNat]

section
variable {config : Config} {frame : Frame} (more : Bytes)

theorem versionOf_wire : versionOf (wire frame ++ more) = frame.version := by
  have h : leValue (leBytes 1 frame.version.toNat) = frame.version.toNat :=
    leValue_leBytes frame.version.toNat_lt
  simp [versionOf, wire, List.append_assoc, h]

theorem cmdByteOf_wire : cmdByteOf (wire frame ++ more) = frame.cmd.toByte := by
  have h : leValue (leBytes 1 frame.cmd.toByte.toNat) = frame.cmd.toByte.toNat :=
    leValue_leBytes frame.cmd.toByte.toNat_lt
  simp [cmdByteOf, wire, List.append_assoc, h]

theorem lengthOf_wire : lengthOf (wire frame ++ more) = (payload frame).length % 65536 := by
  have h : leValue (leBytes 2 ((payload frame).length % 65536)) = (payload frame).length % 65536 :=
    leValue_leBytes (Nat.mod_lt _ (by decide))
  simp [lengthOf, wire, List.append_assoc, leBytes_one, h]

theorem streamIdOf_wire : streamIdOf (wire frame ++ more) = frame.streamId := by
  have h : leValue (leBytes 4 frame.streamId.toNat) = frame.streamId.toNat :=
    leValue_leBytes frame.streamId.toNat_lt
  simp [streamIdOf, wire, List.append_assoc, leBytes_one, leBytes_two, h]

theorem drop_wire : (wire frame ++ more).drop headerSize = payload frame ++ more := by
  have hh : headerSize = 4 + 4 := rfl
  rw [hh, ← List.drop_drop]
  simp [wire, List.append_assoc, leBytes_one, leBytes_two]

theorem frameOf_payload (hv : frame.Valid config) :
    frameOf config frame.version frame.cmd.headerOnly frame.streamId (payload frame) =
      .ok frame := by
  have hval := Frame.validate_ok.mpr hv
  obtain ⟨version, cmd, streamId, data⟩ := frame
  cases cmd with
  | upd consumed window =>
    have hver : version ≥ 2 := hv.upd_version rfl
    obtain rfl : data = [] := hv.control rfl
    simp only [frameOf, Command.headerOnly, payload, hver, if_true, decodeUpdData_encodeUpdData]
    simp only [Frame.new, bind, Except.bind, pure, Except.pure, hval]
  | _ => simp only [frameOf, Command.headerOnly, payload, Frame.new, bind, Except.bind, pure, Except.pure, hval]

/-- A frame that fits is read back from its own bytes, whatever follows them. -/
theorem decode_wire (h : Fits config frame) :
    (Codec.new config).decode.run' (wire frame ++ more) = (.ok (some frame), more) := by
  obtain ⟨hv, hsize, hlen⟩ := h
  have hlong : ¬(wire frame ++ more).length < headerSize + (payload frame).length := by
    rw [List.length_append, length_wire]; omega
  have hshort : ¬(wire frame ++ more).length < headerSize := by omega
  have hdrop : (wire frame ++ more).drop (headerSize + (payload frame).length) = more := by
    rw [← List.drop_drop, drop_wire, List.drop_left]
  rw [decode_run, if_neg hshort, cmdByteOf_wire, Command.fromByte_toByte]
  simp only [versionOf_wire, lengthOf_wire, streamIdOf_wire, Nat.mod_eq_of_lt hlen, drop_wire,
    List.take_left, hdrop]
  rw [if_neg (show ¬_ > (new config).maxFrameSize from Nat.not_lt.mpr hsize), if_neg hlong]
  simp only [Codec.new, frameOf_payload hv, Except.map]

end

theorem length_of_decode {self : Codec} (h : self.decode.run' src = (.ok (some frame), rest)) :
    frame.data.length ≤ 65535 := by
  have hlen : lengthOf src < 65536 := UInt16.toNat_lt _
  obtain ⟨cmd, -, -, -, hf, -⟩ := decode_some h
  have := frameOf_data_length hf
  rw [List.length_take] at this
  omega

theorem length_of_decodeTimes {self : Codec} (h : .ok (some frame) ∈ (self.decodeTimes n src).1) :
    frame.data.length ≤ 65535 := by
  induction n generalizing src with
  | zero => simp [decodeTimes] at h
  | succ n ih =>
    simp only [decodeTimes, List.mem_cons] at h
    rcases h with h | h
    · exact length_of_decode (Prod.ext h.symm rfl)
    · exact ih h

-- ---------------------------------------------------------------------------
-- Lists of frames
-- ---------------------------------------------------------------------------

section
variable {self : Codec} {frames : List Frame}

theorem encodeAll_buf (frames : List Frame) (dst : Bytes) :
    (self.encodeAll frames dst).2 = dst ++ (self.encodeAll frames dst).1.flatMap wire := by
  induction frames generalizing dst with
  | nil => simp [encodeAll]
  | cons frame frames ih =>
    cases hr : (self.encode frame).run' dst with
    | mk result dst' =>
      cases result with
      | ok => simp only [encodeAll, hr, ih, (encode_ok hr).2, List.flatMap_cons, List.append_assoc]
      | error e => simp only [encodeAll, hr, ih, encode_error hr]

/-- Whether a frame is accepted does not depend on the buffer. -/
theorem mem_encodeAll {dst : Bytes} : frame ∈ (self.encodeAll frames dst).1 ↔
    frame ∈ frames ∧ frame.validate self.config = .ok () ∧
      headerSize + (payload frame).length % 65536 ≤ self.maxFrameSize := by
  induction frames generalizing dst with
  | nil => simp [encodeAll]
  | cons f frames ih =>
    have hrun := encode_run self f dst
    cases hv : f.validate self.config with
    | error e =>
      simp only [hv] at hrun
      simp only [encodeAll, hrun, ih, List.mem_cons]
      grind
    | ok u =>
      simp only [hv] at hrun
      split at hrun <;> simp only [encodeAll, hrun, ih, List.mem_cons] <;> grind

/-- Validation has bounded the length that the cast then truncates. -/
theorem mem_encodeAll_of_long (hc : self.maxFrameSize = self.config.maxFrameSize)
    (hf : frame ∈ frames) (hv : frame.validate self.config = .ok ()) {dst : Bytes}
    (hlong : 65535 < frame.data.length) : frame ∈ (self.encodeAll frames dst).1 := by
  have hvalid := Frame.validate_ok.mp hv
  have hpsh : payload frame = frame.data := by
    unfold payload
    cases hcmd : frame.cmd with
    | upd => simp [hvalid.control (by simp [hcmd, Command.isControl])] at hlong
    | _ => rfl
  have hsize := hvalid.size
  refine mem_encodeAll.mpr ⟨hf, hv, ?_⟩
  rw [hpsh, hc]
  omega

theorem decodeTimes_wire {config : Config} (more : Bytes)
    (h : ∀ frame ∈ frames, Fits config frame) :
    (new config).decodeTimes frames.length (frames.flatMap wire ++ more) =
      (frames.map fun frame => .ok (some frame), more) := by
  induction frames with
  | nil => rfl
  | cons frame frames ih =>
    have hd := decode_wire (frames.flatMap wire ++ more) (h frame (by simp))
    simp only [List.length_cons, List.flatMap_cons, List.append_assoc, decodeTimes, hd,
      ih fun f hf => h f (List.mem_cons_of_mem _ hf), List.map_cons]

end

/-- Encoding `frames` into one buffer and decoding once for each frame
accepted, with `more` after them in the buffer. -/
structure RoundTrips (codec : Codec) (frames : List Frame) (more : Bytes) : Prop where
  /-- A call appends one frame, or fails and leaves the buffer as it was. -/
  atomic : ∀ frame ∈ frames, ∀ dst,
    (codec.encode frame).run' dst = (.ok (), dst ++ wire frame) ∨
      ∃ e, (codec.encode frame).run' dst = (.error e, dst)
  decoded : codec.decodeTimes (codec.encodeAll frames []).1.length
      ((codec.encodeAll frames []).2 ++ more) =
    ((codec.encodeAll frames []).1.map fun frame => .ok (some frame), more)

theorem encode_atomic (self : Codec) (frame : Frame) (dst : Bytes) :
    (self.encode frame).run' dst = (.ok (), dst ++ wire frame) ∨
      ∃ e, (self.encode frame).run' dst = (.error e, dst) := by
  cases hr : (self.encode frame).run' dst with
  | mk result dst' =>
    cases result with
    | ok u => exact .inl (by rw [(encode_ok hr).2])
    | error e => exact .inr ⟨e, by rw [encode_error hr]⟩

theorem RoundTrips.length_le {config : Config} (h : RoundTrips (new config) frames more)
    (hf : frame ∈ frames) (hv : frame.validate config = .ok ()) : frame.data.length ≤ 65535 := by
  refine Nat.not_lt.mp fun hlong => ?_
  have hmem : frame ∈ ((new config).encodeAll frames []).1 :=
    mem_encodeAll_of_long rfl hf hv hlong
  have hdec : .ok (some frame) ∈ ((new config).decodeTimes ((new config).encodeAll frames []).1.length
      (((new config).encodeAll frames []).2 ++ more)).1 := by
    rw [h.decoded]; exact List.mem_map_of_mem hmem
  have hle := length_of_decodeTimes hdec
  omega

/-- Every accepted frame comes back, in order and field for field, exactly
if no valid frame in the list has a payload of 65536 bytes or more. -/
theorem roundTrips_iff (config : Config) (frames : List Frame) (more : Bytes) :
    RoundTrips (new config) frames more ↔
      ∀ frame ∈ frames, frame.validate config = .ok () → frame.data.length ≤ 65535 := by
  refine ⟨fun h frame hf hv => h.length_le hf hv, fun h => ⟨fun _ _ => encode_atomic _ _, ?_⟩⟩
  rw [encodeAll_buf, List.nil_append]
  refine decodeTimes_wire more fun frame hmem => ?_
  obtain ⟨hf, hv, hsize⟩ := mem_encodeAll.mp hmem
  have hlen := length_payload_lt (h frame hf hv)
  rw [Nat.mod_eq_of_lt hlen] at hsize
  exact ⟨Frame.validate_ok.mp hv, hsize, hlen⟩

/-- A limit of 65544 bytes admits a payload whose length field reads 0. -/
def longConfig : Config := { Config.default with maxFrameSize := 65544 }

theorem not_roundTrips_of_length (h : data.length = 65536) :
    ¬RoundTrips (new longConfig) [Frame.newPsh 1 1 data] [] := by
  intro hr
  have hv : (Frame.newPsh 1 1 data).Valid longConfig := by
    constructor <;>
      simp [Frame.newPsh, Frame.new, Command.requiresV2, Command.isControl, headerSize, h, longConfig]
  have hle := hr.length_le (List.mem_singleton.mpr rfl) (Frame.validate_ok.mpr hv)
  simp only [Frame.newPsh, Frame.new, h] at hle
  omega

theorem not_roundTrips_long : longConfig.validate = .ok () ∧
    ¬RoundTrips (new longConfig) [Frame.newPsh 1 1 (List.replicate 65536 0)] [] :=
  ⟨by decide, not_roundTrips_of_length List.length_replicate⟩

end Codec

end Smux
