import Smux.Session.Frames

/-!
# What a configuration must allow

`Working` is what a session needs of its configuration: that the encoder takes
the frames the library builds, that `write_all` makes progress, that there are
tokens to begin with, and that the keep-alive timers can be created.
`working_iff` says which of the configurations that `validate` accepts give
that.
-/

namespace Smux

open Runs

inductive WriteAllError
  | io (error : IoError)
  | writeZero
  deriving DecidableEq, Repr

namespace Stream

/-- `write_all` of tokio's `AsyncWriteExt`, with the channel's answer at each
attempt: `poll_write` until the buffer is empty, where a count of 0 is an
error. -/
def writeAll (this : Stream) (sessionState : SessionState) (config : Config) :
    Bytes → List TrySend → Poll (Except WriteAllError Unit) × List Frame
  | [], _ => (.ready (.ok ()), [])
  | _, [] => (.pending, [])
  | buf, trySend :: answers =>
    match this.pollWrite sessionState config buf trySend with
    | (.pending, frames) =>
      let (result, more) := this.writeAll sessionState config buf answers
      (result, frames ++ more)
    | (.ready (.error e), frames) => (.ready (.error (.io e)), frames)
    | (.ready (.ok n), frames) =>
      if n = 0 then (.ready (.error .writeZero), frames)
      else
        let (result, more) := this.writeAll sessionState config (buf.drop n) answers
        (result, frames ++ more)

section
variable {this : Stream} {state : SessionState} {config : Config} {buf : Bytes}
  {answers : List TrySend}

section
variable (hopen : state.closed = false) (hw : this.isWriteClosed = false) (hbuf : buf ≠ [])
include hopen hw hbuf

theorem pollWrite_sent : this.pollWrite state config buf .sent =
    (.ready (.ok (min buf.length (config.maxFrameSize - headerSize))),
      [.newPsh 1 this.streamId (buf.take (min buf.length (config.maxFrameSize - headerSize)))]) := by
  have hempty : buf.isEmpty = false := by simpa using hbuf
  simp only [pollWrite, SessionState.isClosed, hopen, hw, hempty, Bool.false_eq_true, if_false]

theorem pollWrite_full : this.pollWrite state config buf .full = (.pending, []) := by
  have hempty : buf.isEmpty = false := by simpa using hbuf
  simp only [pollWrite, SessionState.isClosed, hopen, hw, hempty, Bool.false_eq_true, if_false]

end

theorem pollWrite_ok (h : this.pollWrite state config buf trySend = (.ready (.ok n), frames))
    (hbuf : buf ≠ []) : n = min buf.length (config.maxFrameSize - headerSize) ∧
      frames = [.newPsh 1 this.streamId (buf.take n)] := by
  have hempty : buf.isEmpty = false := by simpa using hbuf
  simp only [pollWrite, hempty, Bool.false_eq_true, if_false] at h
  repeat' split at h
  all_goals cases h
  exact ⟨rfl, rfl⟩

/-- Each attempt that finds room takes at least one byte. -/
theorem writeAll_done (hmax : headerSize < config.maxFrameSize) (hopen : state.closed = false)
    (hw : this.isWriteClosed = false) (hconn : .disconnected ∉ answers)
    (hroom : buf.length ≤ answers.count .sent) :
    ∃ frames, this.writeAll state config buf answers = (.ready (.ok ()), frames) ∧
      frames.flatMap Frame.data = buf := by
  induction answers generalizing buf with
  | nil =>
    obtain rfl : buf = [] := List.length_eq_zero_iff.mp (Nat.le_zero.mp hroom)
    exact ⟨[], by rw [writeAll], rfl⟩
  | cons trySend answers ih =>
    by_cases hbuf : buf = []
    · subst hbuf
      exact ⟨[], by rw [writeAll], rfl⟩
    have hlen := List.length_pos_iff.mpr hbuf
    have hconn' := List.not_mem_of_not_mem_cons hconn
    rw [writeAll.eq_3 _ _ _ _ _ _ hbuf]
    cases trySend with
    | sent =>
      rw [List.count_cons_self] at hroom
      rw [pollWrite_sent hopen hw hbuf]
      generalize hn : min buf.length (config.maxFrameSize - headerSize) = n
      have hleft : (buf.drop n).length ≤ answers.count .sent := by rw [List.length_drop]; omega
      obtain ⟨more, hmore, hdata⟩ := ih hconn' hleft
      refine ⟨.newPsh 1 this.streamId (buf.take n) :: more, ?_, ?_⟩
      · simp only [hmore, if_neg (show ¬n = 0 by omega), List.singleton_append]
      · rw [List.flatMap_cons, hdata]
        exact List.take_append_drop ..
    | full =>
      obtain ⟨more, hmore, hdata⟩ := ih hconn' (by simpa using hroom)
      rw [pollWrite_full hopen hw hbuf]
      exact ⟨more, by simp only [hmore, List.nil_append], hdata⟩
    | disconnected => exact absurd (List.mem_cons_self ..) hconn

end

end Stream

/-- What `Config::validate` is to guarantee. -/
structure Working (config : Config) : Prop where
  /-- `send_loop` does not end because of a frame the library itself built. -/
  encodes : ∀ isClient tr t, Run Session.step (.new config isClient) tr t → ∀ frame ∈ t.queued,
    frame.streamId ≠ 0 ∨ frame.cmd = .nop →
    ∀ dst, ∃ dst', ((Codec.new config).encode frame).run' dst = (.ok (), dst')
  writes : ∀ (stream : Stream) state buf trySend n frames, buf ≠ [] →
    stream.pollWrite state config buf trySend = (.ready (.ok n), frames) →
    1 ≤ n ∧ n ≤ buf.length ∧ frames = [.newPsh 1 stream.streamId (buf.take n)]
  writesAll : ∀ (stream : Stream) (state : SessionState) buf answers, state.closed = false →
    stream.isWriteClosed = false → .disconnected ∉ answers → buf.length ≤ answers.count .sent →
    ∃ frames, stream.writeAll state config buf answers = (.ready (.ok ()), frames) ∧
      frames.flatMap Frame.data = buf
  tokens : 0 < (SessionState.new config.maxReceiveBuffer).getTokens
  /-- `tokio::time::interval` panics on a period of zero. -/
  intervals : config.enableKeepAlive → config.keepAliveInterval ≠ 0 ∧ config.keepAliveTimeout ≠ 0

section
variable {config : Config}

theorem Built.valid (h : Built config frame) (hv : config.version ≠ 0)
    (hmax : headerSize ≤ config.maxFrameSize) (hid : frame.streamId ≠ 0 ∨ frame.cmd = .nop) :
    frame.Valid config := by
  cases h with
  | psh hlen =>
    refine ⟨(by decide : (1 : UInt8) ≠ 0), by rintro ⟨⟩, ?_, by rintro ⟨⟩, ?_⟩
    · simp only [Frame.newPsh, Frame.new]; omega
    · simpa [Frame.newPsh, Frame.new] using hid
  | syn => exact ⟨hv, by rintro ⟨⟩, hmax, fun _ => rfl, by simpa [Frame.newSyn, Frame.new] using hid⟩
  | nop => exact ⟨hv, by rintro ⟨⟩, hmax, fun _ => rfl, by simp [Frame.newNop, Frame.new]⟩
  | fin =>
    exact ⟨(by decide : (1 : UInt8) ≠ 0), by rintro ⟨⟩, hmax, fun _ => rfl,
      by simpa [Frame.newFin, Frame.new] using hid⟩

/-- What an encoder refuses, it refuses to validate. -/
theorem encode_of_valid {frame : Frame} (h : Built config frame) (hv : frame.Valid config)
    (dst : Bytes) : ∃ dst', ((Codec.new config).encode frame).run' dst = (.ok (), dst') := by
  have hpay : Codec.payload frame = frame.data := by cases h <;> rfl
  have hval : frame.validate (Codec.new config).config = .ok () := Frame.validate_ok.mpr hv
  have hsize := hv.size
  have hmod := Nat.mod_le frame.data.length 65536
  have hle : ¬headerSize + frame.data.length % 65536 > (Codec.new config).maxFrameSize := by
    simp only [Codec.new]
    omega
  rw [Codec.encode_run, hval, hpay]
  exact ⟨_, if_neg hle⟩

theorem getTokens_new (n : Nat) : (SessionState.new n).getTokens = i64 n := by
  rw [SessionState.getTokens, SessionState.new]

theorem i64_pos {n : Nat} (h : n < 2 ^ 64) : 0 < i64 n ↔ 0 < n ∧ n < 2 ^ 63 := by
  simp only [i64, Int.bmod_def]
  omega

theorem Working.maxFrameSize_lt (h : Working config) : headerSize < config.maxFrameSize := by
  have hwrite : (Stream.new 1 .unbounded).pollWrite (.new 0) config [0] .sent =
      (.ready (.ok (min 1 (config.maxFrameSize - headerSize))),
        [.newPsh 1 1 (List.take (min 1 (config.maxFrameSize - headerSize)) [0])]) :=
    Stream.pollWrite_sent rfl rfl (by simp)
  have hpos := (h.writes _ _ _ _ _ _ (by simp) hwrite).1
  omega

/-- The bounds that `validate` does not check: a frame has room for data, the
receive buffer fits the `AtomicI64`, and there is time between two pings. -/
theorem working_iff (hv : config.validate = .ok ()) (hsize : config.maxReceiveBuffer < 2 ^ 64) :
    Working config ↔ headerSize < config.maxFrameSize ∧ config.maxReceiveBuffer < 2 ^ 63 ∧
      (config.enableKeepAlive → config.keepAliveInterval ≠ 0) := by
  have hvalid := Config.validate_ok.mp hv
  have hpos : 0 < config.maxReceiveBuffer :=
    Nat.lt_of_lt_of_le hvalid.maxFrameSize_pos hvalid.maxFrameSize_le_buffer
  have htokens : 0 < (SessionState.new config.maxReceiveBuffer).getTokens ↔
      config.maxReceiveBuffer < 2 ^ 63 := by
    rw [getTokens_new, i64_pos hsize, and_iff_right hpos]
  constructor
  · intro h
    exact ⟨h.maxFrameSize_lt, htokens.mp h.tokens, fun hka => (h.intervals hka).1⟩
  · rintro ⟨hmax, hbuf, hka⟩
    refine ⟨?_, ?_, ?_, htokens.mpr hbuf, fun hk => ⟨hka hk, ?_⟩⟩
    · intro isClient tr t hr frame hf hid dst
      have hb := Session.built_run hr frame hf
      exact encode_of_valid hb (hb.valid hvalid.version (Nat.le_of_lt hmax) hid) dst
    · intro stream state buf trySend n frames hne hwrite
      obtain ⟨rfl, rfl⟩ := Stream.pollWrite_ok hwrite hne
      have hlen := List.length_pos_iff.mpr hne
      exact ⟨by omega, Nat.min_le_left .., rfl⟩
    · intro stream state buf answers hopen hw hconn hroom
      exact Stream.writeAll_done hmax hopen hw hconn hroom
    · exact Nat.ne_of_gt (Nat.lt_of_le_of_lt (Nat.zero_le _) (hvalid.keepAlive hk))

end

theorem working_default : Working .default :=
  (working_iff Config.validate_default (by simp [Config.default])).mpr
    (by simp [Config.default, headerSize, secs])

/-- A frame has room for its header only. -/
def headerOnlyConfig : Config := { Config.default with maxFrameSize := 8 }

/-- `poll_write` accepts nothing and sends an empty frame, `write_all` fails. -/
theorem not_working_headerOnly : headerOnlyConfig.validate = .ok () ∧
    (Stream.new 1 .unbounded).writeAll (.new 8) headerOnlyConfig [0] [.sent] =
      (.ready (.error .writeZero), [.newPsh 1 1 []]) ∧ ¬Working headerOnlyConfig :=
  ⟨by decide, by decide, fun h => absurd h.maxFrameSize_lt (by decide)⟩

end Smux
