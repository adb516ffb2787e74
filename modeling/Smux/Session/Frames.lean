import Smux.Session.Laws
import Smux.Codec.RoundTrip

/-!
# The frames a session builds

Every frame in the frame channel is one of four kinds. `open_stream` and
`keep_alive_loop` take the version of their frames from the configuration,
the streams write version 1, so that a session speaks one version exactly if
that is the one configured.
-/

namespace Smux

open Runs

/-- A frame as the library builds them. -/
inductive Built (config : Config) : Frame → Prop
  | syn : Built config (.newSyn config.version streamId)
  | nop : Built config (.newNop config.version)
  | psh : data.length ≤ config.maxFrameSize - headerSize → Built config (.newPsh 1 streamId data)
  | fin : Built config (.newFin 1 streamId)

theorem Handle.step_built {self self' : Handle} {state state' : SessionState}
    (h : self.step config state channelOpen act = some (self', state', frames)) :
    ∀ frame ∈ frames, Built config frame := by
  intro frame hf
  rcases step_ok h with ⟨_, _, _, -, -, rfl, -, -⟩ | ⟨-, -, _, _, _, -, hw⟩
  · cases hf
  · cases hw with
    | quiet | finRefused | finPending | finAbandoned | handedOut | dropSilent => cases hf
    | psh _ _ hlen => exact List.mem_singleton.mp hf ▸ .psh hlen
    | syn => exact List.mem_singleton.mp hf ▸ .syn
    | fin | finResumed | dropFin => exact List.mem_singleton.mp hf ▸ .fin

namespace Session

section
variable {config : Config} {isClient : Bool} {u v t : Session} {act : Act}
  {tr : List (Session × Act)}

theorem built_step (h : u.config = config ∧ ∀ frame ∈ u.queued, Built config frame)
    (hs : u.step act = some v) : v.config = config ∧ ∀ frame ∈ v.queued, Built config frame := by
  obtain ⟨rfl, h⟩ := h
  refine ⟨step_config hs, fun frame hf => ?_⟩
  cases step_ok hs with
  | called _ _ hcall =>
    rcases List.mem_append.mp hf with hf | hf
    · exact h frame hf
    · exact Handle.step_built hcall frame hf
  | ping =>
    rcases List.mem_append.mp hf with hf | hf
    · exact h frame hf
    · exact List.mem_singleton.mp hf ▸ .nop
  | psh hp hpsh => cases hp <;> cases hpsh <;> exact h frame hf
  | _ => exact h frame hf

theorem built_run (hr : Run step (new config isClient) tr t) :
    ∀ frame ∈ t.queued, Built config frame := by
  have hnew : (new config isClient).config = config ∧
      ∀ frame ∈ (new config isClient).queued, Built config frame := ⟨rfl, nofun⟩
  exact (hr.always hnew built_step t (last_visited ..)).2

-- ---------------------------------------------------------------------------
-- One version
-- ---------------------------------------------------------------------------

/-- Every frame of every run has the version configured, and so has the header
that is written of it. -/
def SpeaksOneVersion (config : Config) : Prop :=
  ∀ isClient tr t, Run step (new config isClient) tr t → ∀ frame ∈ t.queued,
    frame.version = config.version ∧
      ∀ dst dst', ((Codec.new config).encode frame).run' dst = (.ok (), dst') →
        Codec.versionOf (dst'.drop dst.length) = config.version

/-- A stream that a client opens and shuts down. -/
def shortStream : List Act :=
  [.openStream, .register 1, .call 0 .synResumed, .call 0 .opened,
    .call 0 (.pollShutdown true)]

theorem shortStream_queued (config : Config) : ∃ tr t,
    exec step (new config true) shortStream = some (tr, t) ∧
      t.queued = [.newSyn config.version 1, .newFin 1 1] :=
  ⟨_, _, rfl, rfl⟩

theorem SpeaksOneVersion.eq_one (h : SpeaksOneVersion config) : config.version = 1 := by
  obtain ⟨tr, t, he, hq⟩ := shortStream_queued config
  exact (h true tr t (exec_run he) (.newFin 1 1) (by simp [hq])).1.symm

theorem speaksOneVersion_iff (config : Config) :
    SpeaksOneVersion config ↔ config.version = 1 := by
  refine ⟨fun h => h.eq_one, fun hv isClient tr t hr frame hf => ?_⟩
  have hversion : frame.version = config.version := by
    cases built_run hr frame hf with
    | syn | nop => rfl
    | psh | fin => exact hv.symm
  refine ⟨hversion, fun dst dst' henc => ?_⟩
  obtain ⟨-, rfl⟩ := Codec.encode_ok henc
  rw [List.drop_left, ← hversion, ← List.append_nil (Codec.wire frame)]
  exact Codec.versionOf_wire []

end

def v2Config : Config := { Config.default with version := 2 }

/-- A session of version 2 shuts its streams down in version 1. -/
theorem not_speaksOneVersion_v2 : v2Config.validate = .ok () ∧
    (∃ tr t, exec step (new v2Config true) shortStream = some (tr, t) ∧
      t.queued = [.newSyn 2 1, .newFin 1 1]) ∧
    ¬SpeaksOneVersion v2Config :=
  ⟨by decide, shortStream_queued v2Config, fun h => absurd h.eq_one (by decide)⟩

end Session

end Smux
