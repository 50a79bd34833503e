import Transcode.Error
import Transcode.Text.Ascii
import Transcode.Text.Blank
/-!
# Media types and plugin kinds
-/

set_option autoImplicit false

namespace Transcode

/-- What a stream carries. -/
inductive MediaType where
  | video
  | audio
deriving Repr, DecidableEq

namespace MediaType

/-- The name in requests and profiles. -/
def name : MediaType → String
  | video => "video"
  | audio => "audio"

/-- The name in messages. -/
def label : MediaType → String
  | video => "视频"
  | audio => "音频"

/-- Reads a media type; white space around it and letter case do not matter. -/
def parse (s : String) : Except Error MediaType :=
  match Text.lower (Text.trim s) with
  | "video" => .ok video
  | "audio" => .ok audio
  | other => .error (.configuration (.unknownMedia other))

end MediaType

/-- Whether a plugin makes a stream or takes one apart. -/
inductive PluginKind where
  | encoder
  | decoder
deriving Repr, DecidableEq

namespace PluginKind

/-- The name in requests. -/
def name : PluginKind → String
  | encoder => "encoder"
  | decoder => "decoder"

/-- The name in messages. -/
def label : PluginKind → String
  | encoder => "编码器"
  | decoder => "解码器"

end PluginKind

end Transcode
