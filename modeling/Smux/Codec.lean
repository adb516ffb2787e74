import Smux.Frame
import Smux.Lib.LittleEndian

/-!
# The codec

`Codec.decode` and `Codec.encode` run on the buffer they are handed. `BufM`
is a computation that reads or extends a buffer and may fail; running one
gives its result together with the buffer it leaves, also when it fails. The
reading and writing primitives are those of `bytes::Buf` and `bytes::BufMut`
(which panic on a buffer that is too short; here they read zeros, and the
length checks around them keep that from being reached).
-/

namespace Smux

open LittleEndian

abbrev BufM := ExceptT SmuxError (StateM Bytes)

namespace BufM

def run' (m : BufM α) (buf : Bytes) : Result α × Bytes := StateT.run (ExceptT.run m) buf

/-- Run on a clone of the buffer. -/
def onClone (m : BufM α) : BufM α := ExceptT.mk fun buf => ((m.run' buf).1, buf)

def remaining : BufM Nat := return (← get).length

def splitTo (n : Nat) : BufM Bytes := do
  let buf ← get
  set (buf.drop n)
  return buf.take n

def getU8 : BufM UInt8 := return UInt8.ofNat (leValue (← splitTo 1))

def getU16Le : BufM UInt16 := return UInt16.ofNat (leValue (← splitTo 2))

def getU32Le : BufM UInt32 := return UInt32.ofNat (leValue (← splitTo 4))

def putSlice (bytes : Bytes) : BufM Unit := modify (· ++ bytes)

def putU8 (n : UInt8) : BufM Unit := putSlice (leBytes 1 n.toNat)

def putU16Le (n : UInt16) : BufM Unit := putSlice (leBytes 2 n.toNat)

def putU32Le (n : UInt32) : BufM Unit := putSlice (leBytes 4 n.toNat)

-- ---------------------------------------------------------------------------
-- Running a buffer computation
-- ---------------------------------------------------------------------------

section
variable (buf : Bytes)

@[simp] theorem run'_pure (a : α) : (pure a : BufM α).run' buf = (.ok a, buf) := rfl

theorem run'_bind (m : BufM α) (f : α → BufM β) : (m >>= f).run' buf =
    match m.run' buf with
    | (.ok a, rest) => (f a).run' rest
    | (.error e, rest) => (.error e, rest) := by
  unfold run' ExceptT.run StateT.run
  simp only [bind, ExceptT.bind, ExceptT.mk, StateT.bind, ExceptT.bindCont]
  cases m buf with
  | mk result rest => cases result <;> rfl

@[simp] theorem run'_ite (c : Prop) [Decidable c] (m n : BufM α) :
    (if c then m else n).run' buf = if c then m.run' buf else n.run' buf := by
  split <;> rfl

@[simp] theorem run'_ofExcept (x : Result α) :
    (MonadExcept.ofExcept x : BufM α).run' buf = (x, buf) := by
  cases x <;> rfl

@[simp] theorem run'_onClone (m : BufM α) : (onClone m).run' buf = ((m.run' buf).1, buf) := rfl

@[simp] theorem run'_remaining : remaining.run' buf = (.ok buf.length, buf) := rfl

@[simp] theorem run'_splitTo (n : Nat) :
    (splitTo n).run' buf = (.ok (buf.take n), buf.drop n) := rfl

@[simp] theorem run'_putSlice (bytes : Bytes) :
    (putSlice bytes).run' buf = (.ok (), buf ++ bytes) := rfl

end

end BufM

open BufM

structure Codec where
  config : Config
  maxFrameSize : Nat

namespace Codec

def new (config : Config) : Codec := { config, maxFrameSize := config.maxFrameSize }

def decodeHeader : BufM (UInt8 × Command × UInt32 × UInt16) := do
  if (← remaining) < headerSize then
    throw .insufficientData
  let version ← getU8
  let cmdByte ← getU8
  let length ← getU16Le
  let streamId ← getU32Le
  let cmd ← MonadExcept.ofExcept (Command.fromByte cmdByte)
  return (version, cmd, streamId, length)

def encodeHeader (version : UInt8) (cmd : Command) (streamId : UInt32) (length : UInt16) :
    BufM Unit := do
  putU8 version
  putU8 cmd.toByte
  putU16Le length
  putU32Le streamId

def decodeUpdData (data : Bytes) : Result (UInt32 × UInt32) :=
  if data.length ≠ 8 then
    .error (.protocolViolation "UPD frame must have exactly 8 bytes of data")
  else
    (do let consumed ← getU32Le
        let window ← getU32Le
        return (consumed, window) : BufM (UInt32 × UInt32)).run' data |>.1

def encodeUpdData (consumed window : UInt32) : Bytes :=
  leBytes 4 consumed.toNat ++ leBytes 4 window.toNat

def decode (self : Codec) : BufM (Option Frame) := do
  if (← remaining) < headerSize then
    return none
  -- peek at the header without consuming it
  let (version, _, _, length) ← onClone decodeHeader
  let totalFrameSize := headerSize + length.toNat
  if totalFrameSize > self.maxFrameSize then
    throw (.frameTooLarge totalFrameSize self.maxFrameSize)
  if (← remaining) < totalFrameSize then
    return none
  let (_, cmd, streamId, length) ← decodeHeader
  let data ← splitTo length.toNat
  let finalCmd ← match cmd with
    | .upd _ _ =>
      if version ≥ 2 then do
        let (consumed, window) ← MonadExcept.ofExcept (decodeUpdData data)
        pure (.upd consumed window)
      else pure cmd
    | _ => pure cmd
  let frameData := match finalCmd with
    | .upd _ _ => []
    | _ => data
  let frame := Frame.new version finalCmd streamId frameData
  MonadExcept.ofExcept (frame.validate self.config)
  return some frame

def encode (self : Codec) (frame : Frame) : BufM Unit := do
  MonadExcept.ofExcept (frame.validate self.config)
  let (dataToEncode, length) := match frame.cmd with
    | .upd consumed window =>
      if frame.version ≥ 2 then
        let updData := encodeUpdData consumed window
        (updData, UInt16.ofNat updData.length)
      else (frame.data, UInt16.ofNat frame.data.length)
    | _ => (frame.data, UInt16.ofNat frame.data.length)
  let totalSize := headerSize + length.toNat
  if totalSize > self.maxFrameSize then
    throw (.frameTooLarge totalSize self.maxFrameSize)
  encodeHeader frame.version frame.cmd frame.streamId length
  putSlice dataToEncode

-- ---------------------------------------------------------------------------
-- What a decode does, from the fields of the header
-- ---------------------------------------------------------------------------

def versionOf (src : Bytes) : UInt8 := UInt8.ofNat (leValue (src.take 1))

def cmdByteOf (src : Bytes) : UInt8 := UInt8.ofNat (leValue ((src.drop 1).take 1))

/-- The length field of the header at the front of `src`. -/
def lengthOf (src : Bytes) : Nat := (UInt16.ofNat (leValue ((src.drop 2).take 2))).toNat

def streamIdOf (src : Bytes) : UInt32 := UInt32.ofNat (leValue ((src.drop 4).take 4))

def frameOf (config : Config) (version : UInt8) (cmd : Command) (streamId : UInt32)
    (data : Bytes) : Result Frame := do
  let finalCmd ← match cmd with
    | .upd _ _ =>
      if version ≥ 2 then do
        let (consumed, window) ← decodeUpdData data
        pure (.upd consumed window)
      else pure cmd
    | _ => pure cmd
  let frameData := match finalCmd with
    | .upd _ _ => []
    | _ => data
  let frame := Frame.new version finalCmd streamId frameData
  frame.validate config
  return frame

theorem decodeHeader_run (h : ¬src.length < headerSize) : decodeHeader.run' src =
    match Command.fromByte (cmdByteOf src) with
    | .ok cmd =>
      (.ok (versionOf src, cmd, streamIdOf src, UInt16.ofNat (lengthOf src)), src.drop headerSize)
    | .error e => (.error e, src.drop headerSize) := by
  unfold decodeHeader
  rw [run'_bind, run'_remaining]
  dsimp only
  rw [run'_ite, if_neg h]
  simp only [run'_bind, getU8, getU16Le, getU32Le, run'_splitTo, run'_pure, run'_ofExcept,
    List.drop_drop, cmdByteOf, versionOf, streamIdOf, lengthOf, UInt16.ofNat_toNat, headerSize]
  cases Command.fromByte (UInt8.ofNat (leValue ((src.drop 1).take 1))) <;> rfl

private theorem run'_validate (frame : Frame) (config : Config) (buf : Bytes) :
    (do MonadExcept.ofExcept (frame.validate config); return some frame : BufM _).run' buf =
      ((do frame.validate config; return frame : Result Frame).map some, buf) := by
  rw [run'_bind, run'_ofExcept]
  cases frame.validate config <;> rfl

/-- Every branch of a decode, with the buffer it leaves. -/
theorem decode_run (self : Codec) (src : Bytes) : self.decode.run' src =
    if src.length < headerSize then (.ok none, src)
    else match Command.fromByte (cmdByteOf src) with
      | .error e => (.error e, src)
      | .ok cmd =>
        if headerSize + lengthOf src > self.maxFrameSize then
          (.error (.frameTooLarge (headerSize + lengthOf src) self.maxFrameSize), src)
        else if src.length < headerSize + lengthOf src then (.ok none, src)
        else
          ((frameOf self.config (versionOf src) cmd (streamIdOf src)
              ((src.drop headerSize).take (lengthOf src))).map some,
            src.drop (headerSize + lengthOf src)) := by
  have hlen : lengthOf src < 65536 := UInt16.toNat_lt _
  unfold decode
  rw [run'_bind, run'_remaining]
  dsimp only
  rw [run'_ite]
  split
  · rfl
  rename_i hshort
  rw [run'_bind, run'_onClone, decodeHeader_run hshort]
  cases hc : Command.fromByte (cmdByteOf src) with
  | error e => rfl
  | ok cmd =>
    simp only [UInt16.toNat_ofNat', Nat.mod_eq_of_lt hlen]
    rw [run'_ite]
    split
    · rfl
    rw [run'_bind, run'_remaining]
    dsimp only
    rw [run'_ite]
    split
    · rfl
    rw [run'_bind, decodeHeader_run hshort, hc]
    simp only [run'_bind, run'_splitTo, List.drop_drop, UInt16.toNat_ofNat', Nat.mod_eq_of_lt hlen]
    generalize (src.drop headerSize).take (lengthOf src) = data
    generalize src.drop (headerSize + lengthOf src) = rest
    unfold frameOf
    cases cmd with
    | upd consumed window =>
      by_cases hv : versionOf src ≥ 2
      · simp only [hv, if_true]
        rw [run'_bind, run'_ofExcept]
        cases decodeUpdData data with
        | error e => rfl
        | ok p => exact run'_validate ..
      · simp only [hv, if_false]
        exact run'_validate ..
    | _ => exact run'_validate ..

theorem frameOf_data_length {config : Config} (h : frameOf config version cmd streamId data = .ok frame) :
    frame.data.length ≤ data.length := by
  have key : ∀ {cmd' : Command},
      (do (Frame.new version cmd' streamId (match cmd' with | .upd _ _ => [] | _ => data)).validate config
          return Frame.new version cmd' streamId (match cmd' with | .upd _ _ => [] | _ => data)
        : Result Frame) = .ok frame → frame.data.length ≤ data.length := by
    intro cmd' h
    simp only [bind, Except.bind, pure, Except.pure] at h
    split at h <;> cases h
    cases cmd' <;> simp [Frame.new]
  unfold frameOf at h
  cases cmd with
  | upd consumed window =>
    by_cases hv : version ≥ 2
    · simp only [hv, if_true] at h
      cases hd : decodeUpdData data with
      | error e => rw [hd] at h; cases h
      | ok p => rw [hd] at h; exact key h
    · simp only [hv, if_false] at h
      exact key h
  | _ => exact key h

/-- What a decoded frame says about the buffer. -/
theorem decode_some {self : Codec} (h : self.decode.run' src = (.ok (some frame), rest)) :
    ∃ cmd, Command.fromByte (cmdByteOf src) = .ok cmd ∧
      headerSize + lengthOf src ≤ self.maxFrameSize ∧
      headerSize + lengthOf src ≤ src.length ∧
      frameOf self.config (versionOf src) cmd (streamIdOf src)
        ((src.drop headerSize).take (lengthOf src)) = .ok frame ∧
      rest = src.drop (headerSize + lengthOf src) := by
  rw [decode_run] at h
  split at h
  · cases h
  · split at h
    · cases h
    · rename_i cmd hc
      split at h
      · cases h
      · split at h
        · cases h
        · obtain ⟨hf, rfl⟩ := Prod.mk.inj h
          cases hfr : frameOf self.config (versionOf src) cmd (streamIdOf src)
              ((src.drop headerSize).take (lengthOf src)) with
          | error e => rw [hfr] at hf; cases hf
          | ok f =>
            rw [hfr] at hf
            cases hf
            exact ⟨cmd, hc, by omega, by omega, hfr, rfl⟩

-- ---------------------------------------------------------------------------
-- What an encode does
-- ---------------------------------------------------------------------------

def payload (frame : Frame) : Bytes :=
  match frame.cmd with
  | .upd consumed window =>
    if frame.version ≥ 2 then encodeUpdData consumed window else frame.data
  | _ => frame.data

/-- The bytes of a frame. The length field holds the low 16 bits of the
length only: it is written through an `as u16` cast. -/
def wire (frame : Frame) : Bytes :=
  leBytes 1 frame.version.toNat ++ leBytes 1 frame.cmd.toByte.toNat ++
    leBytes 2 ((payload frame).length % 65536) ++ leBytes 4 frame.streamId.toNat ++ payload frame

theorem encode_run (self : Codec) (frame : Frame) (dst : Bytes) : (self.encode frame).run' dst =
    match frame.validate self.config with
    | .error e => (.error e, dst)
    | .ok () =>
      if headerSize + (payload frame).length % 65536 > self.maxFrameSize then
        (.error (.frameTooLarge (headerSize + (payload frame).length % 65536) self.maxFrameSize), dst)
      else (.ok (), dst ++ wire frame) := by
  have hsel : (match frame.cmd with
      | .upd consumed window =>
        if frame.version ≥ 2 then
          (encodeUpdData consumed window, UInt16.ofNat (encodeUpdData consumed window).length)
        else (frame.data, UInt16.ofNat frame.data.length)
      | _ => (frame.data, UInt16.ofNat frame.data.length)) =
      (payload frame, UInt16.ofNat (payload frame).length) := by
    unfold payload
    cases frame.cmd with
    | upd consumed window => dsimp only; split <;> rfl
    | _ => rfl
  unfold encode
  rw [run'_bind, run'_ofExcept]
  cases frame.validate self.config with
  | error e => rfl
  | ok u =>
    simp only [hsel, UInt16.toNat_ofNat']
    rw [run'_ite]
    split
    · rfl
    · simp only [encodeHeader, run'_bind, putU8, putU16Le, putU32Le, run'_putSlice, wire,
        UInt16.toNat_ofNat', List.append_assoc]

theorem encode_ok {self : Codec} (h : (self.encode frame).run' dst = (.ok (), dst')) :
    frame.Valid self.config ∧ dst' = dst ++ wire frame := by
  rw [encode_run] at h
  split at h
  · cases h
  · rename_i hv
    split at h <;> cases h
    exact ⟨Frame.validate_ok.mp hv, rfl⟩

theorem encode_error {self : Codec} (h : (self.encode frame).run' dst = (.error e, dst')) :
    dst' = dst := by
  rw [encode_run] at h
  split at h
  · cases h; rfl
  · split at h <;> cases h
    rfl

@[simp] theorem length_encodeUpdData (consumed window : UInt32) :
    (encodeUpdData consumed window).length = 8 := by
  simp [encodeUpdData]

theorem length_wire (frame : Frame) : (wire frame).length = headerSize + (payload frame).length := by
  simp [wire, headerSize]; omega

end Codec

end Smux
