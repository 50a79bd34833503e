import Transcode.Plugin
/-!
# Raw video and raw audio

Both are passed through as they are, in either direction.
-/

set_option autoImplicit false

namespace Transcode

/-- A plugin that hands frames on and counts them. -/
structure Passthrough where
  descriptor : Descriptor
  /-- The frames taken, as a natural number in place of a counter of 64 bits. -/
  frames : Nat := 0
deriving DecidableEq

namespace Passthrough

/-- Raw video. -/
def video (kind : PluginKind) : Passthrough where
  descriptor :=
    { Descriptor.draft "raw" kind .video with version := "0.2.0", description := "RAW 视频透传" }
    |>.addFormat "RAW"

/-- Raw audio. -/
def audio (kind : PluginKind) : Passthrough where
  descriptor :=
    { Descriptor.draft "pcm" kind .audio with version := "0.2.0", description := "PCM 音频透传" }
    |>.addFormat "RAW" |>.addFormat "WAV"

/-- Hands a frame on. -/
def forward (frame : Frame) (s : Passthrough) : Turn Passthrough Frame :=
  { result := .ok frame, state := { s with frames := s.frames + 1 } }

instance : Plugin Passthrough where
  descriptor := descriptor
  encode := forward
  decode := forward
  finish s :=
    { result := .ok (), state := s
      lines := [⟨.debug, s!"{s.descriptor.name}: 透传 {s.frames} 帧"⟩] }

end Passthrough

end Transcode
