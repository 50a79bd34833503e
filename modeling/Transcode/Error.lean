/-!
# What can go wrong

Every failure is a value that names its cause; the wording of all of them stands here, in one
`message` function for each type of cause. Failures of the options and of the validation come
before any stream is opened. A failure while frames are moving is turned by `Error.toJobFailure`
into one that also names the last frame completed.

The exit status tells the stage: 2 for a wrong configuration, 3 for a job that does not fit, 4 for
a run that broke off and 5 for an external tool that failed.
-/

set_option autoImplicit false

namespace Transcode

/-- What the operating system refuses. -/
inductive IoError where
  | noEntry
  | argumentsTooLong
  | execFormat
  | permissionDenied
  | busy
  | fileExists
  | notDirectory
  | isDirectory
  | brokenPipe
  | nameTooLong
  /-- A path holds a NUL character. -/
  | nulInPath
  /-- An argument of a program holds a NUL character. -/
  | nulInArgument
  | invalidText
  | other (text : String)
deriving Repr, DecidableEq

/-- The system's wording. -/
def IoError.message : IoError → String
  | .noEntry => "No such file or directory (os error 2)"
  | .argumentsTooLong => "Argument list too long (os error 7)"
  | .execFormat => "Exec format error (os error 8)"
  | .permissionDenied => "Permission denied (os error 13)"
  | .busy => "Device or resource busy (os error 16)"
  | .fileExists => "File exists (os error 17)"
  | .notDirectory => "Not a directory (os error 20)"
  | .isDirectory => "Is a directory (os error 21)"
  | .brokenPipe => "Broken pipe (os error 32)"
  | .nameTooLong => "File name too long (os error 36)"
  | .nulInPath => "file name contained an unexpected NUL byte"
  | .nulInArgument => "nul byte found in provided data"
  | .invalidText => "stream did not contain valid UTF-8"
  | .other text => text

/-- What is wrong with a configuration. -/
inductive ConfigurationFault where
  | emptyFormat
  | invalidFormat (text : String)
  | unknownMedia (text : String)
  | optionWithoutName (pair : String)
  | invalidOptionName (name : String)
  | notBool (name value : String)
  | notNumber (name value : String)
  | zeroOption (name : String)
  | optionRefused (plugin name : String)
  | emptyPluginName
  | blankFormat (plugin : String)
  | noFormats (plugin : String)
  | formatUnknown (plugin : String)
  | unsupportedRate (rate : Nat)
  | unsupportedChannels (channels : Nat)
  | unsupportedBits (bits : Nat)
  | qualityNotNumber (text : String)
  | qualityOutOfRange (text : String)
  | inputMissing
  | outputMissing
  | formatNotInferred (path : String)
  | noExporter (format : String)
  | optionValueRefused (name value : String)
  | profileUnreadable (path : String) (cause : IoError)
  | profileMalformed (path : String)
  | within (fault : ConfigurationFault)
  | other (text : String)
deriving Repr, DecidableEq

/-- The wording of a configuration fault. -/
def ConfigurationFault.message : ConfigurationFault → String
  | .emptyFormat => "格式标识不能为空"
  | .invalidFormat text => s!"无效的格式标识: '{text}'"
  | .unknownMedia text => s!"未知媒体类型: '{text}'"
  | .optionWithoutName pair => s!"选项缺少名称: '{pair}'"
  | .invalidOptionName name => s!"无效的选项名称: '{name}'"
  | .notBool name value => s!"选项 {name} 需要布尔值, 实际为 '{value}'"
  | .notNumber name value => s!"选项 {name} 需要整数, 实际为 '{value}'"
  | .zeroOption name => s!"{name} 不能为 0"
  | .optionRefused plugin name => s!"插件 '{plugin}' 不接受选项 '{name}'"
  | .emptyPluginName => "插件名称不能为空"
  | .blankFormat plugin => s!"插件 '{plugin}' 声明了空的格式标识"
  | .noFormats plugin => s!"插件 '{plugin}' 未声明任何支持的格式"
  | .formatUnknown plugin => s!"无法确定插件 '{plugin}' 的输出格式"
  | .unsupportedRate rate => s!"不支持的采样率: {rate}"
  | .unsupportedChannels channels => s!"不支持的声道数: {channels}"
  | .unsupportedBits bits => s!"不支持的采样位数: {bits}"
  | .qualityNotNumber text => s!"选项 quality 不是数字: {text}"
  | .qualityOutOfRange text => s!"Vorbis 质量超出范围 [-1, 10]: {text}"
  | .inputMissing => "必须指定输入文件 (--in)"
  | .outputMissing => "必须指定输出文件 (--out)"
  | .formatNotInferred path => s!"无法从 {path} 推断输出格式, 请指定导出插件 (--export)"
  | .noExporter format => s!"没有支持格式 {format} 的导出插件, 请指定 --export"
  | .optionValueRefused name value =>
      s!"选项 '{name}' 的值必须是字符串、数字或布尔值, 实际为 {value}"
  | .profileUnreadable path cause => s!"读取配置文件失败: {path}: {cause.message}"
  | .profileMalformed path => s!"解析配置文件失败: {path}"
  | .within fault => s!"配置错误: {fault.message}"
  | .other text => text

/-- Why two plugins cannot follow each other. -/
inductive ChainFault where
  | notDecoder (plugin : String)
  | notEncoder (plugin : String)
  | mediaDiffer (first second : String)
  | twoTools
  | other (text : String)
deriving Repr, DecidableEq

/-- The wording of a chain fault. -/
def ChainFault.message : ChainFault → String
  | .notDecoder plugin => s!"'{plugin}' 不是解码器"
  | .notEncoder plugin => s!"'{plugin}' 不是编码器"
  | .mediaDiffer first second => s!"媒体类型不一致 ({first} / {second})"
  | .twoTools => "同一任务最多只能使用一个外部工具"
  | .other text => text

/-- Why a job does not fit its plugins and this machine. -/
inductive ValidationFault where
  | unsupportedFormat (plugin format supported : String)
  | missingTool (plugin tool : String)
  | conflictingOptions (first second : String)
  | incompatibleChain (importer exporter : String) (fault : ChainFault)
  | missingRawAudio (plugin : String)
deriving Repr, DecidableEq

/-- The wording of a validation fault. -/
def ValidationFault.message : ValidationFault → String
  | .unsupportedFormat plugin format supported =>
      s!"插件 '{plugin}' 不支持格式 {format} (支持: {supported})"
  | .missingTool plugin tool => s!"插件 '{plugin}' 需要外部工具 '{tool}', 但在 PATH 中未找到"
  | .conflictingOptions first second => s!"选项 '{first}' 与 '{second}' 互斥"
  | .incompatibleChain importer exporter fault =>
      s!"插件 '{importer}' 无法串联到 '{exporter}': {fault.message}"
  | .missingRawAudio plugin =>
      s!"插件 '{plugin}' 输出裸码流, 音频必须导出到单独的文件 (--raw-audio)"

/-- How an external tool failed. -/
inductive ToolFailure where
  | notFound
  | spawn (cause : IoError)
  | exitStatus (code : Option Int)
  | timeout (milliseconds : Nat)
  | noOutput
  | io (cause : IoError)
  | inputCutShort
deriving Repr, DecidableEq

/-- The wording of a tool failure. -/
def ToolFailure.message : ToolFailure → String
  | .notFound => "工具不存在"
  | .spawn cause => s!"启动失败: {cause.message}"
  | .exitStatus (some code) => s!"退出状态异常: {code}"
  | .exitStatus none => "退出状态异常: 被信号终止"
  | .timeout milliseconds => s!"超过 {milliseconds} ms 无响应"
  | .noOutput => "没有产生任何输出"
  | .io cause => s!"管道 I/O 失败: {cause.message}"
  | .inputCutShort => "管道 I/O 失败: 工具在输入结束前关闭了管道"

/-- What is wrong with media data. -/
inductive DataFault where
  | headerIncomplete (length : Nat)
  | tagMismatch (expected actual : String)
  | sizeMismatch (declared actual : Nat)
  | payloadTooLarge (length : Nat)
  | frameTooLarge (sequence size limit : Nat)
  | headerCut (length : Nat)
  | chunkCut
  | chunkTooLarge (tag : String) (size : Nat)
  | other (text : String)
deriving Repr, DecidableEq

/-- The wording of a data fault. -/
def DataFault.message : DataFault → String
  | .headerIncomplete length => s!"分块头不完整: {length} 字节"
  | .tagMismatch expected actual => s!"分块标签不匹配: 期望 {expected}, 实际 {actual}"
  | .sizeMismatch declared actual =>
      s!"分块长度不一致: 头部声明 {declared} 字节, 实际 {actual} 字节"
  | .payloadTooLarge length => s!"负载过大, 无法放入分块: {length} 字节"
  | .frameTooLarge sequence size limit =>
      s!"帧 {sequence} 大小 {size} 字节, 超过上限 {limit} 字节"
  | .headerCut length => s!"输入在分块头中途结束 ({length} 字节)"
  | .chunkCut => "输入在分块中途结束"
  | .chunkTooLarge tag size => s!"分块 {tag} 过大: {size} 字节"
  | .other text => text

/-- What a plugin does not do. -/
inductive UnsupportedOperation where
  | encode (plugin : String)
  | decode (plugin : String)
  | other (text : String)
deriving Repr, DecidableEq

/-- The wording of an unsupported operation. -/
def UnsupportedOperation.message : UnsupportedOperation → String
  | .encode plugin => s!"插件 '{plugin}' 不支持编码"
  | .decode plugin => s!"插件 '{plugin}' 不支持解码"
  | .other text => text

/-- Why a run broke off. -/
inductive BreakOff where
  | io (cause : IoError)
  | data (fault : DataFault)
  | unsupported (operation : UnsupportedOperation)
  | outOfOrder (previous next : Nat)
  | other (text : String)
deriving Repr, DecidableEq

/-- The wording of why a run broke off. -/
def BreakOff.message : BreakOff → String
  | .io cause => s!"I/O 错误: {cause.message}"
  | .data fault => s!"无效数据: {fault.message}"
  | .unsupported operation => s!"不支持的操作: {operation.message}"
  | .outOfOrder previous next => s!"帧序号未严格递增: {previous} 之后为 {next}"
  | .other text => text

/-- A failure, by the stage at which it shows. `last` is the sequence number of the last frame
completed before it. -/
inductive Error where
  | duplicateName (label : String)
  | pluginNotFound (label : String)
  | configuration (fault : ConfigurationFault)
  | validation (fault : ValidationFault)
  | externalTool (tool : String) (failure : ToolFailure) (last : Option Nat)
  | pipeline (reason : BreakOff) (last : Option Nat)
  | cancelled (last : Option Nat)
  | io (cause : IoError)
  | invalidData (fault : DataFault)
  | unsupported (operation : UnsupportedOperation)
deriving Repr, DecidableEq

namespace Error

/-- The last frame completed, as text. -/
def lastText : Option Nat → String
  | some n => toString n
  | none => "无"

/-- The wording of a failure. -/
def message : Error → String
  | duplicateName label => s!"插件名称重复: {label}"
  | pluginNotFound label => s!"未找到插件: {label}"
  | configuration fault => s!"配置错误: {fault.message}"
  | validation fault => s!"校验失败: {fault.message}"
  | externalTool tool failure last =>
      s!"外部工具 '{tool}' 失败: {failure.message} (最后完成帧: {lastText last})"
  | pipeline reason last => s!"管线错误: {reason.message} (最后完成帧: {lastText last})"
  | cancelled last => s!"任务已取消 (最后完成帧: {lastText last})"
  | io cause => s!"I/O 错误: {cause.message}"
  | invalidData fault => s!"无效数据: {fault.message}"
  | unsupported operation => s!"不支持的操作: {operation.message}"

/-- The exit status of the command line. -/
def exitCode : Error → Nat
  | duplicateName _ | pluginNotFound _ | configuration _ => 2
  | validation _ => 3
  | pipeline _ _ | cancelled _ | io _ | invalidData _ | unsupported _ => 4
  | externalTool _ _ _ => 5

/-- The last frame completed before the failure, where the failure tells. -/
def lastSuccessful : Error → Option Nat
  | externalTool _ _ last | pipeline _ last | cancelled last => last
  | _ => none

/-- The failure as the end of a job whose last completed frame is `last`. A tool failure, a broken
run and a cancellation keep their kind and take `last`; refused input and output, bad data and
unsupported operations become a broken run; all other failures stay as they are. -/
def toJobFailure (last : Option Nat) : Error → Error
  | externalTool tool failure _ => externalTool tool failure last
  | cancelled _ => cancelled last
  | pipeline reason _ => pipeline reason last
  | io cause => pipeline (.io cause) last
  | invalidData fault => pipeline (.data fault) last
  | unsupported operation => pipeline (.unsupported operation) last
  | e => e

end Error

end Transcode
