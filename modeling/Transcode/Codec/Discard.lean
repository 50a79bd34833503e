import Transcode.Plugin
/-!
# The null output

Frames keep their numbers and lose their bytes, which are only counted.
-/

set_option autoImplicit false

namespace Transcode

/-- An encoder without output. -/
structure Discard where
  bytes : Nat := 0
deriving DecidableEq

namespace Discard

/-- What the null output declares. -/
def descriptor : Descriptor :=
  { Descriptor.draft "null" .encoder .video with
    version := "0.1.1", description := "丢弃输出, 仅计数" }
  |>.addFormat "NULL" |>.addLimitation "不产生任何输出数据"

instance : Plugin Discard where
  descriptor _ := descriptor
  encode frame s :=
    { result := .ok (frame.withData []), state := { s with bytes := s.bytes + frame.size } }
  finish s :=
    { result := .ok (), state := s, lines := [⟨.info, s!"null: 共丢弃 {s.bytes} 字节"⟩] }

end Discard

end Transcode
