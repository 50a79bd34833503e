import Transcode.Chunk
import Transcode.Plugin
/-!
# DivX video

The coding itself is done elsewhere; here a frame of video is put into a chunk of an AVI file or
taken out of one. The encoder may also write the bare stream, and then leaves frames as they are.
-/

set_option autoImplicit false

namespace Transcode.Divx

/-- The option that limits the size of a frame. -/
def maxFrameSizeOption : String := "max_frame_size"

/-- The version both directions declare. -/
def version : String := "0.5.0"

/-- What is known to go wrong with PAL video. -/
def palNote : String :=
  "PAL (720x576) 视频使用 -r 缩小时结果不正确, 需先裁剪: " ++
    "-r2 或 -r4 配合 -j 0,8, -r8 配合 -j 32,40"

/-- What the encoder into AVI chunks declares. -/
def wrappedDescriptor : Descriptor :=
  { Descriptor.draft "divx4" .encoder .video with
    version := version, description := "DivX 4.xx 视频编码前端 (AVI 封装)" }
  |>.addFormat "AVI" |>.addFormat "DIVX" |>.addOption maxFrameSizeOption
  |>.addLimitation palNote |>.addLimitation "音频以原始格式导出到单独文件 (--raw-audio)"

/-- What the encoder of the bare stream declares. -/
def bareDescriptor : Descriptor :=
  { Descriptor.draft "divx4raw" .encoder .video with
    version := version, description := "DivX 4.xx 视频编码前端 (裸码流)" }
  |>.addFormat "DIVX" |>.addOption maxFrameSizeOption
  |>.addFlags Descriptor.rawBitstreamFlag
  |>.addLimitation palNote |>.addLimitation "裸码流输出要求音频导出到单独文件 (--raw-audio)"

/-- What the decoder declares. -/
def decoderDescriptor : Descriptor :=
  { Descriptor.draft "divx4" .decoder .video with
    version := version, description := "DivX 4.xx 视频解码前端 (AVI 分块)", framing := .chunked }
  |>.addFormat "AVI" |>.addFormat "DIVX"

/-- The encoder. -/
structure Encoder where
  descriptor : Descriptor
  /-- Whether the bare stream is written. -/
  raw : Bool := descriptor.isRawBitstream
  /-- The bytes a frame may have. -/
  maxFrameSize : Nat := UInt32.size - 1 - ChunkHeader.length
  /-- The frames taken; like the bytes, a natural number in place of a counter of 64 bits. -/
  frames : Nat := 0
  bytes : Nat := 0
deriving DecidableEq

namespace Encoder

/-- Takes the `raw` switch and the limit. The switch only turns the bare stream on, and it counts
even where the limit is then refused. -/
def configure (options : OptionTable) (s : Encoder) : Turn Encoder Unit :=
  match options.flag "raw" with
  | .error e => { result := .error e, state := s }
  | .ok raw =>
      let s := { s with raw := s.raw || raw }
      match options.getWord32 maxFrameSizeOption with
      | .error e => { result := .error e, state := s }
      | .ok (some 0) =>
          { result := .error (.configuration (.zeroOption maxFrameSizeOption)), state := s }
      | .ok limit =>
          let s := { s with maxFrameSize := limit.getD s.maxFrameSize }
          { result := .ok (), state := s
            lines := [⟨.debug,
              s!"{s.descriptor.name}: raw={s.raw}, max_frame_size={s.maxFrameSize}"⟩] }

/-- Wraps a frame, or leaves it bare. -/
def encode (frame : Frame) (s : Encoder) : Turn Encoder Frame :=
  if s.maxFrameSize < frame.size then
    { result := .error (.invalidData (.frameTooLarge frame.sequence frame.size s.maxFrameSize))
      state := s }
  else
    let counted := { s with frames := s.frames + 1, bytes := s.bytes + frame.size }
    if s.raw then { result := .ok frame, state := counted }
    else
      { result := (Chunk.wrap .video frame.data).map frame.withData, state := counted }

instance : Plugin Encoder where
  descriptor := descriptor
  configure := configure
  encode := encode
  finish s :=
    { result := .ok (), state := s
      lines := [⟨.info, s!"{s.descriptor.name}: 编码 {s.frames} 帧, 码流 {s.bytes} 字节"⟩] }

/-- A fresh encoder into AVI chunks. -/
def wrapped : Encoder := { descriptor := wrappedDescriptor }

/-- A fresh encoder of the bare stream. -/
def bare : Encoder := { descriptor := bareDescriptor }

end Encoder

/-- The decoder; it has no state. -/
structure Decoder where
deriving DecidableEq

instance : Plugin Decoder where
  descriptor _ := decoderDescriptor
  decode frame s :=
    { result := (Chunk.unwrap .video frame.data).map frame.withData, state := s }

end Transcode.Divx
