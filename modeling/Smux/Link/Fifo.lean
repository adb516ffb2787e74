import Smux.Link
import Smux.Codec.RoundTrip
import Smux.Codec.Arrival
import Smux.Session.Received
import Smux.Session.Sent

/-!
# The frames between two sessions

In each direction the frames queued by the sender are those the receiver has
taken, then those on the way as bytes, then those still in the frame channel.
The bytes on the way, whether written or already read, are the encodings of
the frames on the way, however the transport cuts them.
-/

namespace Smux

-- ---------------------------------------------------------------------------
-- One direction
-- ---------------------------------------------------------------------------

/-- `transit` is on the way as bytes, and `rest` is in the frame channel for
as long as that has its receiver. -/
structure OnTheWay (config : Config) (sender : Session) (wire buf : Bytes) (receiver : Session)
    (transit rest : List Frame) : Prop where
  queued : sender.queued = receiver.taken ++ transit ++ rest
  rest_eq : sender.channelOpen → rest = sender.frames
  bytes : buf ++ wire = transit.flatMap Codec.wire
  fits : ∀ frame ∈ transit, Codec.Fits config frame

def Fifo (config : Config) (sender : Session) (wire buf : Bytes) (receiver : Session) : Prop :=
  ∃ transit rest, OnTheWay config sender wire buf receiver transit rest

namespace Fifo

variable {config : Config} {sender sender' receiver receiver' : Session} {wire wire' buf buf' : Bytes}
  {frame : Frame}

theorem new (config : Config) (side : Side) :
    Fifo config (.new config side.isClient) [] [] (.new config side.other.isClient) :=
  ⟨[], [], rfl, fun _ => rfl, rfl, nofun⟩

theorem isPrefix_taken (h : Fifo config sender wire buf receiver) :
    receiver.taken <+: sender.queued := by
  obtain ⟨transit, rest, h⟩ := h
  exact ⟨transit ++ rest, by rw [h.queued, List.append_assoc]⟩

/-- A step of the sender appends to the frame channel, at most. -/
theorem sender_step (h : Fifo config sender wire buf receiver) (hs : sender.step act = some sender')
    (hact : act ≠ .sendFrame) : Fifo config sender' wire buf receiver := by
  obtain ⟨transit, rest, h⟩ := h
  obtain ⟨sent, hq, hf⟩ := Session.step_queued hs hact
  refine ⟨transit, rest ++ sent, ?_, fun ho => ?_, h.bytes, h.fits⟩
  · rw [hq, h.queued, List.append_assoc _ rest]
  · rw [h.rest_eq (hf ho).1, (hf ho).2]

theorem receiver_step (h : Fifo config sender wire buf receiver)
    (hs : receiver.step act = some receiver') (hact : act.takes = []) :
    Fifo config sender wire buf receiver' := by
  obtain ⟨transit, rest, h⟩ := h
  have htaken := Session.step_taken hs
  rw [hact, List.append_nil] at htaken
  exact ⟨transit, rest, by rw [h.queued, htaken], h.rest_eq, h.bytes, h.fits⟩

theorem send (h : Fifo config sender wire buf receiver) (hf : sender.frames = frame :: left)
    (hs : sender.step .sendFrame = some sender')
    (henc : ((Codec.new config).encode frame).run' wire = (.ok (), wire'))
    (hmax : config.maxFrameSize ≤ headerSize + 65535) : Fifo config sender' wire' buf receiver := by
  obtain ⟨transit, rest, h⟩ := h
  obtain ⟨frame', left, hf', ho, rfl⟩ := Session.sendFrame_ok hs
  rw [hf] at hf'
  cases hf'
  obtain ⟨hvalid, rfl⟩ := Codec.encode_ok henc
  have hsize := hvalid.size
  have hmax' : headerSize + frame.data.length ≤ headerSize + 65535 := Nat.le_trans hsize hmax
  have hfits := Codec.encode_fits henc (Nat.le_of_add_le_add_left hmax')
  have hrest := h.rest_eq ho
  rw [hf] at hrest
  refine ⟨transit ++ [frame], left, ?_, fun _ => rfl, ?_, fun f hm => ?_⟩
  · simp [h.queued, hrest]
  · rw [← List.append_assoc, h.bytes, List.flatMap_append, List.flatMap_singleton]
  · rcases List.mem_append.mp hm with hm | hm
    · exact h.fits f hm
    · exact List.mem_singleton.mp hm ▸ hfits

/-- A frame that cannot be encoded is the end of the channel. -/
theorem sendFailed (h : Fifo config sender wire buf receiver)
    (hs : sender.step .sendFrame = some sender') (hs' : sender'.step .sendLoopEnded = some sender'') :
    Fifo config sender'' wire buf receiver := by
  obtain ⟨transit, rest, h⟩ := h
  obtain ⟨frame, left, -, -, rfl⟩ := Session.sendFrame_ok hs
  cases hs'
  exact ⟨transit, rest, h.queued, nofun, h.bytes, h.fits⟩

theorem read (h : Fifo config sender wire buf receiver) (n : Nat) :
    Fifo config sender (wire.drop n) (buf ++ wire.take n) receiver := by
  obtain ⟨transit, rest, h⟩ := h
  refine ⟨transit, rest, h.queued, h.rest_eq, ?_, h.fits⟩
  rw [List.append_assoc, List.take_append_drop, h.bytes]

/-- The decoder yields the first frame on the way, if it yields anything. -/
theorem decode (h : Fifo config sender wire buf receiver)
    (hdec : (Codec.new config).decode.run' buf = (result, buf')) (hr : result ≠ .ok none) :
    ∃ frame transit rest, result = .ok (some frame) ∧
      OnTheWay config sender wire buf receiver (frame :: transit) rest ∧
      buf' ++ wire = transit.flatMap Codec.wire := by
  obtain ⟨transit, rest, h⟩ := h
  cases transit with
  | nil =>
    obtain ⟨rfl, -⟩ := List.append_eq_nil_iff.mp h.bytes
    rw [Codec.decode_run, if_pos (by decide)] at hdec
    cases hdec
    exact absurd rfl hr
  | cons frame transit =>
    have hlong := Codec.decode_append hdec hr wire
    rw [h.bytes, List.flatMap_cons, Codec.decode_wire _ (h.fits frame (by simp))] at hlong
    obtain ⟨rfl, hbuf⟩ := Prod.mk.inj hlong
    exact ⟨frame, transit, rest, rfl, h, hbuf.symm⟩

theorem decode_ne_error (h : Fifo config sender wire buf receiver) :
    (Codec.new config).decode.run' buf ≠ (.error e, buf') := by
  intro hdec
  obtain ⟨_, _, _, hr, -⟩ := h.decode hdec nofun
  cases hr

theorem next (h : Fifo config sender wire buf receiver)
    (hdec : (Codec.new config).decode.run' buf = (.ok (some frame), buf'))
    (hs : receiver.step (.recv frame) = some receiver') :
    Fifo config sender wire buf' receiver' := by
  obtain ⟨_, transit, rest, hr, h, hbytes⟩ := h.decode hdec nofun
  cases hr
  have htaken := Session.step_taken hs
  refine ⟨transit, rest, ?_, h.rest_eq, hbytes, fun f hm => h.fits f (List.mem_cons_of_mem _ hm)⟩
  simp [h.queued, htaken, Session.Act.takes]

end Fifo

end Smux
