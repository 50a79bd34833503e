import Transcode.Decimal.Numeral
import Transcode.Decimal.Shortest
import Transcode.Plugin
/-!
# Ogg Vorbis audio

Both directions are left to external tools. The encoder checks the shape of the samples, turns it
into arguments of the tool and counts the samples that pass.
-/

set_option autoImplicit false

namespace Transcode.Vorbis

open Decimal (Binary Ratio)

/-- The version both directions declare. -/
def version : String := "0.6.0"

/-- What the encoder declares. -/
def encoderDescriptor : Descriptor :=
  { Descriptor.draft "ogg" .encoder .audio with
    version := version, description := "Ogg Vorbis 音频编码前端" }
  |>.addFormat "OGG" |>.addTool "oggenc"
  |>.addOption "rate" |>.addOption "channels" |>.addOption "bits" |>.addOption "quality"
  |>.addLimitation "原始音频以 --raw-audio 导出到单独文件"
  |>.addLimitation "需要 oggenc"
  |>.addLimitation "合成音视频 Ogg 流需另行使用 oggmerge (ogmtools)"

/-- What the decoder declares. -/
def decoderDescriptor : Descriptor :=
  { Descriptor.draft "ogg" .decoder .audio with
    version := version, description := "Ogg Vorbis 音频解码前端" }
  |>.addFormat "OGG" |>.addTool "oggdec" |>.addLimitation "需要 oggdec"

/-- The shape of interleaved samples, and the quality to aim at. -/
structure Samples where
  rate : Nat := 44100
  channels : Nat := 2
  bits : Nat := 16
  quality : Option Binary := none
deriving DecidableEq

namespace Samples

/-- A number option that must satisfy a condition. -/
def number (options : OptionTable) (name : String) (fallback : Nat) (fits : Nat → Bool)
    (fault : Nat → ConfigurationFault) : Except Error Nat :=
  match options.getWord32 name with
  | .error e => .error e
  | .ok none => .ok fallback
  | .ok (some n) => if fits n then .ok n else .error (.configuration (fault n))

/-- A quality from -1 to 10. -/
def isQuality : Binary → Bool
  | .finite negative m e =>
      (Binary.magnitude m e).le (if negative then ⟨1, 1⟩ else ⟨10, 1⟩)
  | _ => false

/-- The quality option. -/
def qualityOf (options : OptionTable) : Except Error (Option Binary) :=
  match options.get? "quality" with
  | none => .ok none
  | some text =>
      match Decimal.numeral? Decimal.single text with
      | none => .error (.configuration (.qualityNotNumber text))
      | some q =>
          if isQuality q then .ok (some q)
          else .error (.configuration (.qualityOutOfRange q.plainText))

/-- The shape the options give; what they do not set has its default. -/
def ofOptions (options : OptionTable) : Except Error Samples := do
  let rate ← number options "rate" 44100 (fun n => 1000 ≤ n && n ≤ 192000) .unsupportedRate
  let channels ← number options "channels" 2 (fun n => 1 ≤ n && n ≤ 8) .unsupportedChannels
  let bits ← number options "bits" 16 (fun n => n == 8 || n == 16) .unsupportedBits
  let quality ← qualityOf options
  return { rate, channels, bits, quality }

/-- The arguments of the encoding tool. -/
def arguments (s : Samples) : List String :=
  ["-Q", "-r", "-R", toString s.rate, "-C", toString s.channels, "-B", toString s.bits] ++
    (match s.quality with
      | some q => ["-q", q.plainText]
      | none => []) ++
    ["-o", "-", "-"]

/-- The bytes of one sample of all channels. -/
def blockAlign (s : Samples) : Nat :=
  s.channels * s.bits / 8

/-- The time a number of samples lasts: seconds with two places. -/
def seconds (s : Samples) (count : Nat) : String :=
  let total := (Decimal.double.round false ⟨count, 1⟩).abs
  Decimal.fixedPlaces 2 (Decimal.double.round false (total.div ⟨s.rate, 1⟩)).abs

end Samples

/-- The encoder. -/
structure Encoder where
  samples : Samples := {}
  /-- The samples sent to the tool, as a natural number in place of a counter of 64 bits. -/
  count : Nat := 0
deriving DecidableEq

namespace Encoder

/-- Takes the shape the options give; options that are refused change nothing. -/
def configure (options : OptionTable) (s : Encoder) : Turn Encoder Unit :=
  match Samples.ofOptions options with
  | .error e => { result := .error e, state := s }
  | .ok samples =>
      { result := .ok (), state := { s with samples }
        lines := [⟨.debug,
          s!"ogg: {samples.rate} Hz, {samples.channels} 声道, {samples.bits} 位"⟩] }

instance : Plugin Encoder where
  descriptor _ := encoderDescriptor
  configure := configure
  encode frame s :=
    { result := .ok frame
      state := { s with count := s.count + frame.size / s.samples.blockAlign } }
  invocation s := some ⟨"oggenc", s.samples.arguments⟩
  finish s :=
    { result := .ok (), state := s
      lines := [⟨.info,
        s!"ogg: 送入 oggenc {s.count} 个采样 ({s.samples.seconds s.count} 秒)"⟩] }

end Encoder

/-- The decoder; it has no state. -/
structure Decoder where
deriving DecidableEq

instance : Plugin Decoder where
  descriptor _ := decoderDescriptor
  decode frame s := { result := .ok frame, state := s }
  invocation _ := some ⟨"oggdec", ["-Q", "-o", "-", "-"]⟩

end Transcode.Vorbis
