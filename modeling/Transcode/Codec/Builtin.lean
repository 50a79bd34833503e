import Transcode.Codec.Discard
import Transcode.Codec.Divx
import Transcode.Codec.Passthrough
import Transcode.Codec.Vorbis
import Transcode.Registry
/-!
# The built-in plugins

Ten plugins come with the library: four decoders and six encoders.
-/

set_option autoImplicit false

namespace Transcode

/-- An instance of a built-in plugin. -/
inductive Builtin where
  | passthrough (s : Passthrough)
  | discard (s : Discard)
  | divxEncoder (s : Divx.Encoder)
  | divxDecoder (s : Divx.Decoder)
  | vorbisEncoder (s : Vorbis.Encoder)
  | vorbisDecoder (s : Vorbis.Decoder)
deriving DecidableEq

namespace Builtin

/-- The same turn, the state seen as a built-in one. -/
def lift {σ α : Type} (wrap : σ → Builtin) (turn : Turn σ α) : Turn Builtin α :=
  { result := turn.result, state := wrap turn.state, lines := turn.lines, cancels := turn.cancels }

instance : Plugin Builtin where
  descriptor
    | passthrough s => Plugin.descriptor s
    | discard s => Plugin.descriptor s
    | divxEncoder s => Plugin.descriptor s
    | divxDecoder s => Plugin.descriptor s
    | vorbisEncoder s => Plugin.descriptor s
    | vorbisDecoder s => Plugin.descriptor s
  configure options
    | passthrough s => lift passthrough (Plugin.configure options s)
    | discard s => lift discard (Plugin.configure options s)
    | divxEncoder s => lift divxEncoder (Plugin.configure options s)
    | divxDecoder s => lift divxDecoder (Plugin.configure options s)
    | vorbisEncoder s => lift vorbisEncoder (Plugin.configure options s)
    | vorbisDecoder s => lift vorbisDecoder (Plugin.configure options s)
  encode frame
    | passthrough s => lift passthrough (Plugin.encode frame s)
    | discard s => lift discard (Plugin.encode frame s)
    | divxEncoder s => lift divxEncoder (Plugin.encode frame s)
    | divxDecoder s => lift divxDecoder (Plugin.encode frame s)
    | vorbisEncoder s => lift vorbisEncoder (Plugin.encode frame s)
    | vorbisDecoder s => lift vorbisDecoder (Plugin.encode frame s)
  decode frame
    | passthrough s => lift passthrough (Plugin.decode frame s)
    | discard s => lift discard (Plugin.decode frame s)
    | divxEncoder s => lift divxEncoder (Plugin.decode frame s)
    | divxDecoder s => lift divxDecoder (Plugin.decode frame s)
    | vorbisEncoder s => lift vorbisEncoder (Plugin.decode frame s)
    | vorbisDecoder s => lift vorbisDecoder (Plugin.decode frame s)
  invocation
    | passthrough s => Plugin.invocation s
    | discard s => Plugin.invocation s
    | divxEncoder s => Plugin.invocation s
    | divxDecoder s => Plugin.invocation s
    | vorbisEncoder s => Plugin.invocation s
    | vorbisDecoder s => Plugin.invocation s
  finish
    | passthrough s => lift passthrough (Plugin.finish s)
    | discard s => lift discard (Plugin.finish s)
    | divxEncoder s => lift divxEncoder (Plugin.finish s)
    | divxDecoder s => lift divxDecoder (Plugin.finish s)
    | vorbisEncoder s => lift vorbisEncoder (Plugin.finish s)
    | vorbisDecoder s => lift vorbisDecoder (Plugin.finish s)

/-- Fresh decoders, in the order of their registration. -/
def decoders : List Builtin :=
  [passthrough (.video .decoder), passthrough (.audio .decoder), divxDecoder {}, vorbisDecoder {}]

/-- Fresh encoders, in the order of their registration. -/
def encoders : List Builtin :=
  [passthrough (.video .encoder), passthrough (.audio .encoder), discard {},
    divxEncoder .wrapped, divxEncoder .bare, vorbisEncoder {}]

/-- Registers fresh instances with what they declare. -/
def register (fresh : List Builtin) {σ : Type} (wrap : Builtin → σ) (r : Registry σ) :
    Turn (Registry σ) Unit :=
  r.registerAll (fresh.map fun b => (Plugin.descriptor b, .ok (wrap b)))

/-- Registers all decoders, then all encoders. -/
def registerEvery {σ : Type} (wrap : Builtin → σ) (r : Registry σ) : Turn (Registry σ) Unit :=
  register (decoders ++ encoders) wrap r

end Builtin

end Transcode
