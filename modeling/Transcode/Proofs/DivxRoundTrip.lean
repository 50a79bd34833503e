import Mathlib.Algebra.Group.Nat.Defs
import Transcode.Proofs.ChunkGrammar
import Transcode.Proofs.FixedFrames
import Transcode.Proofs.Jobs
import Transcode.Proofs.SteadyRun
/-!
# Video into an AVI file and back

One job cuts a file into frames and packs each of them into a chunk of an AVI file (`Divx.packing`),
and another one takes them out again (`Divx.unpacking`). The encoder packs larger frames than the
reader of AVI files takes, so the limit of the reader is decisive; the extension of an output path
is the other condition (`Divx.transcode_round_trip`).
-/

set_option autoImplicit false

namespace Transcode

/-! ## Chunks that hold one payload each -/

namespace Chunk

/-- A payload behind a header of its size, and in front of its pad byte. -/
def packed (tag : ChunkTag) (payload : Bytes) : Bytes :=
  ChunkHeader.toBytes ⟨tag, UInt32.ofNat payload.length⟩ ++
    (payload ++ List.replicate (payload.length % 2) 0)

variable {tag : ChunkTag} {payload : Bytes}

theorem toNat_size (fits : payload.length < UInt32.size) :
    (UInt32.ofNat payload.length).toNat = payload.length :=
  UInt32.toNat_ofNat_of_lt' fits

theorem wrap_eq_packed (fits : payload.length < UInt32.size) :
    wrap tag payload = .ok (packed tag payload) := by
  simp only [wrap, if_pos fits, ChunkHeader.padding, toNat_size fits, List.append_assoc, packed]

theorem unwrap_packed (fits : payload.length < UInt32.size) :
    unwrap tag (packed tag payload) = .ok payload := by
  have padded : (List.replicate (payload.length % 2) (0 : UInt8)).length =
      ChunkHeader.padding ⟨tag, UInt32.ofNat payload.length⟩ := by
    simp [ChunkHeader.padding, toNat_size fits]
  exact unwrap_parts (toNat_size fits).symm padded

theorem length_packed (tag : ChunkTag) (payload : Bytes) :
    (packed tag payload).length = payload.length + 8 + payload.length % 2 := by
  simp [packed]
  omega

/-- The overhead of packing: eight bytes for each payload, and one more for those of odd size. -/
theorem length_flatMap_packed (tag : ChunkTag) (payloads : List Bytes) :
    (payloads.flatMap (packed tag)).length =
      payloads.flatten.length + 8 * payloads.length +
        payloads.countP fun payload => payload.length % 2 = 1 := by
  induction payloads with
  | nil => rfl
  | cons payload rest ih =>
      -- one is counted where a pad byte is added
      have counted : (if decide (payload.length % 2 = 1) = true then 1 else 0) =
          payload.length % 2 := by
        rcases Nat.mod_two_eq_zero_or_one payload.length with even | odd
        · simp [even]
        · simp [odd]
      rw [List.flatMap_cons, List.length_append, length_packed, ih, List.flatten_cons,
        List.length_append, List.length_cons, List.countP_cons, counted]
      omega

end Chunk

namespace ChunkFile

variable {tag : ChunkTag}

/-- Packed payloads within the limit of the reader are a list of items, one for each. -/
theorem exists_items_packed (isData : ¬(tag = .riff ∨ tag = .list)) {payloads : List Bytes}
    (fits : ∀ payload ∈ payloads, payload.length ≤ 67108864) :
    ∃ items, encode items = payloads.flatMap (Chunk.packed tag) ∧
      tagged tag items = payloads.map (Chunk.packed tag) := by
  induction payloads with
  | nil => exact ⟨[], rfl, rfl⟩
  | cons payload rest ih =>
      obtain ⟨items, hencode, htagged⟩ := ih fun other h => fits other (List.mem_cons_of_mem _ h)
      have hfits : payload.length ≤ 67108864 := fits payload List.mem_cons_self
      have hsize : (UInt32.ofNat payload.length).toNat = payload.length :=
        Chunk.toNat_size (Nat.lt_of_le_of_lt hfits (by decide))
      let item : Item := .chunk ⟨tag, UInt32.ofNat payload.length⟩ payload
        (List.replicate (payload.length % 2) 0) isData (hsize.symm ▸ hfits) hsize.symm
          (by simp [hsize])
      have hframe : item.frame? tag = some (Chunk.packed tag payload) := if_pos rfl
      refine ⟨item :: items, ?_, ?_⟩
      · rw [List.flatMap_cons, ← hencode]
        rfl
      · rw [tagged, List.filterMap_cons_some hframe, ← tagged, htagged, List.map_cons]

/-- A payload above the limit, packed, is not read. -/
theorem cut_packed (isData : ¬(tag = .riff ∨ tag = .list)) {payload : Bytes}
    (large : 67108864 < payload.length) (fits : payload.length < UInt32.size) (rest : Bytes) :
    ∃ fault, Cut (Chunk.packed tag payload ++ rest) fault := by
  rw [Chunk.packed, List.append_assoc]
  exact ⟨_, .size ⟨tag, UInt32.ofNat payload.length⟩ _ isData (by rwa [Chunk.toNat_size fits])⟩

end ChunkFile

/-! ## The plugins -/

namespace Divx

/-- The bytes a frame may have where the options do not say otherwise. -/
def frameLimit : Nat := UInt32.size - 1 - ChunkHeader.length

/-- Raw video in front of an encoder that packs frames up to the limit. -/
inductive Packs : List Builtin → Prop where
  | mk {reader : Passthrough} {encoder : Encoder} (kind : encoder.descriptor.kind = .encoder)
      (wraps : encoder.raw = false) (limit : encoder.maxFrameSize = frameLimit) :
      Packs [.passthrough reader, .divxEncoder encoder]

theorem process_encoder {encoder : Encoder} (kind : encoder.descriptor.kind = .encoder)
    (frame : Frame) :
    Plugin.process frame (Builtin.divxEncoder encoder) =
      Builtin.lift Builtin.divxEncoder (encoder.encode frame) := by
  have hkind : (Plugin.descriptor (Builtin.divxEncoder encoder)).kind = .encoder := kind
  rw [Plugin.process, hkind]
  rfl

namespace Encoder

variable {s : Encoder} {frame : Frame}

/-- The bytes that are written for a frame. -/
def output (s : Encoder) (data : Bytes) : Bytes :=
  if s.raw then data else Chunk.packed .video data

/-- A frame within the limit is written and counted, if the limit is one of a chunk. -/
theorem encode_of_le (chunked : s.maxFrameSize < UInt32.size)
    (within : frame.size ≤ s.maxFrameSize) :
    s.encode frame =
      { result := .ok (frame.withData (s.output frame.data))
        state := { s with frames := s.frames + 1, bytes := s.bytes + frame.size } } := by
  have hword : frame.data.length < UInt32.size := Nat.lt_of_le_of_lt within chunked
  unfold encode output
  rw [if_neg (Nat.not_lt.2 within)]
  cases s.raw with
  | true => rfl
  | false => simp [Chunk.wrap_eq_packed hword, Except.map]

/-- A frame beyond the limit is refused. -/
theorem encode_of_lt (beyond : s.maxFrameSize < frame.size) :
    s.encode frame =
      { result := .error (.invalidData (.frameTooLarge frame.sequence frame.size s.maxFrameSize))
        state := s } := by
  rw [encode, if_pos beyond]

end Encoder

/-- A frame within the limit is packed and counted. -/
theorem encode_of_fits {encoder : Encoder} (wraps : encoder.raw = false)
    (limit : encoder.maxFrameSize = frameLimit) {frame : Frame}
    (fits : frame.data.length ≤ frameLimit) :
    encoder.encode frame =
      { result := .ok (frame.withData (Chunk.packed .video frame.data))
        state := { encoder with
          frames := encoder.frames + 1, bytes := encoder.bytes + frame.size } } := by
  have hchunked : encoder.maxFrameSize < UInt32.size := by
    rw [limit]
    decide
  have hpacked : encoder.output frame.data = Chunk.packed .video frame.data := by
    rw [Encoder.output, wraps, if_neg Bool.false_ne_true]
  rw [Encoder.encode_of_le hchunked (limit ▸ fits), hpacked]

theorem steady_packs :
    Plugin.Steady Packs (fun payload => payload.length ≤ frameLimit) (Chunk.packed .video) where
  passes plugins frame := by
    rintro @⟨reader, encoder, kind, wraps, limit⟩ fits
    have hencode := encode_of_fits wraps limit fits
    have hpacked : (Plugin.process frame (Builtin.divxEncoder encoder)).result =
        .ok (frame.withData (Chunk.packed .video frame.data)) := by
      rw [process_encoder kind, hencode]
      rfl
    have passes :=
      Plugin.Passes.next (Builtin.passthrough_result frame reader) (.next hpacked (.done _))
    rw [Builtin.process_passthrough, process_encoder kind, hencode] at passes
    exact ⟨_, passes, .mk kind wraps limit⟩
  inProcess plugins := by
    rintro ⟨⟩
    exact List.forall_mem_cons.2 ⟨rfl, List.forall_mem_singleton.2 rfl⟩
  finishes plugins := by
    rintro ⟨⟩
    rfl

/-- A frame above the limit is refused. -/
theorem Packs.refuses {plugins : List Builtin} (h : Packs plugins) {frame : Frame}
    (large : frameLimit < frame.size) : ∃ e, Plugin.Refuses frame plugins e := by
  cases h with
  | @mk reader encoder kind wraps limit =>
      have hrefused : (Plugin.process frame (Builtin.divxEncoder encoder)).result =
          .error (.invalidData
            (.frameTooLarge frame.sequence frame.size encoder.maxFrameSize)) := by
        rw [process_encoder kind, Encoder.encode_of_lt (limit ▸ large)]
        rfl
      exact ⟨_, .behind (Builtin.passthrough_result frame reader) (.here hrefused)⟩

/-- The decoder in front of raw video. -/
inductive Unpacks : List Builtin → Prop where
  | mk (writer : Passthrough) : Unpacks [.divxDecoder {}, .passthrough writer]

/-- The payload of a chunk of video. -/
def unpacked (data : Bytes) : Bytes :=
  (Chunk.unwrap .video data).toOption.getD []

theorem steady_unpacks :
    Plugin.Steady Unpacks (fun data => ∃ payload, Chunk.unwrap .video data = .ok payload)
      unpacked where
  passes plugins frame := by
    rintro ⟨writer⟩ ⟨payload, hpayload⟩
    have hunpacked : (Plugin.process frame (Builtin.divxDecoder {})).result =
        .ok (frame.withData (unpacked frame.data)) := by
      have hresult : (Plugin.process frame (Builtin.divxDecoder {})).result =
          (Chunk.unwrap .video frame.data).map frame.withData := rfl
      rw [hresult, unpacked, hpayload]
      rfl
    have passes :=
      Plugin.Passes.next hunpacked (.next (Builtin.passthrough_result _ writer) (.done _))
    rw [Builtin.process_passthrough] at passes
    exact ⟨_, passes, .mk _⟩
  inProcess plugins := by
    rintro ⟨⟩
    exact List.forall_mem_cons.2 ⟨rfl, List.forall_mem_singleton.2 rfl⟩
  finishes plugins := by
    rintro ⟨⟩
    rfl

/-! ## The jobs -/

/-- Raw video is packed into an AVI file. -/
def packing (input avi : String) (frameSize : Nat) : Job where
  input := input
  output := avi
  selected := wrappedDescriptor
  importer? := some (Passthrough.video .decoder).descriptor
  options := OptionTable.empty.set "frame_size" (toString frameSize)

/-- An AVI file is unpacked into raw video. -/
def unpacking (avi output : String) : Job where
  input := avi
  output := output
  selected := (Passthrough.video .encoder).descriptor
  importer? := some decoderDescriptor

/-! ### Packing -/

section Packing

variable {input avi : String} {frameSize : Nat}

theorem frameSize_packing (positive : 0 < frameSize) (word : frameSize < UInt32.size) :
    (packing input avi frameSize).frameSize = .ok frameSize :=
  Job.frameSize_eq rfl positive word

theorem check_packing (positive : 0 < frameSize) (word : frameSize < UInt32.size)
    (available : String → Bool) :
    (packing input avi frameSize).check available = .ok () ↔
      (packing input avi frameSize).SuitsOutput := by
  have values : (packing input avi frameSize).checkOptionValues = .ok () := by
    rw [Job.checkOptionValues, frameSize_packing positive word]
    rfl
  have bare : ¬wrappedDescriptor.isRawBitstream = true := by decide
  have raw : (packing input avi frameSize).writesRaw = .ok false := if_neg bare
  exact Job.check_eq_ok_iff_suitsOutput rfl values rfl rfl raw rfl rfl rfl rfl

/-- The instances of a packing job. -/
def packer (input avi : String) (frameSize : Nat) : Pipeline Builtin where
  job := packing input avi frameSize
  importer? := some (.passthrough (.video .decoder))
  exporter := .divxEncoder .wrapped

theorem openJob_packing (positive : 0 < frameSize) (word : frameSize < UInt32.size) (t : FileTree) :
    Cli.openJob Cli.registry t (packing input avi frameSize) =
      .ok (.file { path := input, splitting := .fixed frameSize },
        { tree := t, path := avi, keepPartial := false }, packer input avi frameSize) := by
  have hsource : Source.ofJob (packing input avi frameSize) =
      .ok (.file { path := input, splitting := .fixed frameSize }) := by
    have hraw : Source.ofJob (packing input avi frameSize) =
      (packing input avi frameSize).frameSize.map fun size =>
        .file { path := input, splitting := .fixed size } := rfl
    rw [hraw, frameSize_packing positive word]
    rfl
  have hsink : FileSink.ofJob t (packing input avi frameSize) =
      .ok { tree := t, path := avi, keepPartial := false } := rfl
  have hexporter : Cli.registry.create .encoder "divx4" = .ok (.divxEncoder .wrapped) := rfl
  have himporter : Cli.registry.create .decoder "raw" = .ok (.passthrough (.video .decoder)) := rfl
  have hpipeline : Pipeline.create (packing input avi frameSize) Cli.registry =
      .ok (packer input avi frameSize) := Pipeline.create_eq rfl hexporter himporter
  rw [Cli.openJob, hsource, hsink, hpipeline]
  rfl

theorem packs_configured : Packs (packer input avi frameSize).configured :=
  .mk rfl rfl rfl

variable {setting : Cli.Setting} {data : Bytes} {mode : Nat}

theorem prepared_packer (positive : 0 < frameSize) (word : frameSize < UInt32.size)
    (suits : (packing input avi frameSize).SuitsOutput) (around : Surroundings) :
    ∃ timeout, (packer input avi frameSize).prepared around = .ok timeout := by
  apply Pipeline.exists_prepared
  · exact (check_packing positive word _).2 suits
  · rfl

/-- Frames that fit are packed. -/
theorem transcode_packing (positive : 0 < frameSize) (word : frameSize < UInt32.size)
    (suits : (packing input avi frameSize).SuitsOutput)
    (found : setting.tree.stat input = .ok (.file data mode)) {beside output : FileTree}
    (hpart : setting.tree.create (avi ++ ".part") = .ok beside)
    (hpath : setting.tree.create avi = .ok output)
    (fits : ∀ piece ∈ Splitting.pieces frameSize data, piece.length ≤ frameLimit) :
    (∃ summary, (Cli.transcode setting (packing input avi frameSize)).1 = .ok summary ∧
      summary.framesIn = (Splitting.pieces frameSize data).length ∧
      summary.framesOut = (Splitting.pieces frameSize data).length) ∧
    setting.tree.AgreesBut [avi, avi ++ ".part"]
      (Cli.transcode setting (packing input avi frameSize)).2 ∧
    ∃ mode, (Cli.transcode setting (packing input avi frameSize)).2.stat avi =
      .ok (.file ((Splitting.pieces frameSize data).flatMap (Chunk.packed .video)) mode) := by
  rw [Cli.transcode_eq (openJob_packing positive word setting.tree)]
  obtain ⟨timeout, hprepared⟩ := prepared_packer positive word suits setting.surroundings
  obtain ⟨⟨summary, hresult, hin, hout, _⟩, agrees, hstat⟩ := Pipeline.run_of_steady steady_packs
    hprepared packs_configured rfl (Source.feed_fixed positive found).1 fits
    { tree := setting.tree, path := avi, keepPartial := false } rfl rfl hpart hpath
  exact ⟨⟨summary, hresult, hin, hout⟩, agrees, hstat⟩

/-- A first frame above the limit is not packed. -/
theorem transcode_packing_of_large (positive : 0 < frameSize) (word : frameSize < UInt32.size)
    (suits : (packing input avi frameSize).SuitsOutput)
    (found : setting.tree.stat input = .ok (.file data mode))
    (large : frameLimit < min frameSize data.length) :
    ∃ e, (Cli.transcode setting (packing input avi frameSize)).1 = .error e := by
  rw [Cli.transcode_eq (openJob_packing positive word setting.tree)]
  obtain ⟨timeout, hprepared⟩ := prepared_packer positive word suits setting.surroundings
  have begun : data ≠ [] := by
    rintro rfl
    simp at large
  have hmessages := (Source.feed_fixed positive found).1
  rw [Splitting.pieces_cons positive begun] at hmessages
  have hlarge : frameLimit < (⟨1, data.take frameSize⟩ : Frame).size := by
    rw [Frame.size, List.length_take]
    exact large
  obtain ⟨e, refuses⟩ := packs_configured.refuses hlarge
  exact ⟨_, Pipeline.run_of_stop hprepared (steady_packs.inProcess _ packs_configured) hmessages
    (.plugin _ rfl (fun previous hlast => absurd hlast.symm (Option.some_ne_none previous)) refuses)
    rfl⟩

end Packing

/-! ### Unpacking -/

section Unpacking

variable {avi output : String}

theorem check_unpacking (available : String → Bool) :
    (unpacking avi output).check available = .ok () ↔ (unpacking avi output).SuitsOutput := by
  have bare : ¬(Passthrough.video .encoder).descriptor.isRawBitstream = true := by decide
  have raw : (unpacking avi output).writesRaw = .ok false := if_neg bare
  exact Job.check_eq_ok_iff_suitsOutput rfl rfl rfl rfl raw rfl rfl rfl rfl

/-- The instances of an unpacking job. -/
def unpacker (avi output : String) : Pipeline Builtin where
  job := unpacking avi output
  importer? := some (.divxDecoder {})
  exporter := .passthrough (.video .encoder)

theorem openJob_unpacking (t : FileTree) :
    Cli.openJob Cli.registry t (unpacking avi output) =
      .ok (.file { path := avi, splitting := .chunks .video },
        { tree := t, path := output, keepPartial := false }, unpacker avi output) := by
  have hsource : Source.ofJob (unpacking avi output) =
      .ok (.file { path := avi, splitting := .chunks .video }) := rfl
  have hsink : FileSink.ofJob t (unpacking avi output) =
      .ok { tree := t, path := output, keepPartial := false } := rfl
  have hexporter : Cli.registry.create .encoder "raw" = .ok (.passthrough (.video .encoder)) := rfl
  have himporter : Cli.registry.create .decoder "divx4" = .ok (.divxDecoder {}) := rfl
  have hpipeline : Pipeline.create (unpacking avi output) Cli.registry =
    .ok (unpacker avi output) :=
    Pipeline.create_eq rfl hexporter himporter
  rw [Cli.openJob, hsource, hsink, hpipeline]
  rfl

theorem unpacks_configured : Unpacks (unpacker avi output).configured :=
  .mk _

variable {setting : Cli.Setting} {mode : Nat}

theorem prepared_unpacker (suits : (unpacking avi output).SuitsOutput) (around : Surroundings) :
    ∃ timeout, (unpacker avi output).prepared around = .ok timeout := by
  apply Pipeline.exists_prepared
  · exact (check_unpacking _).2 suits
  · rfl

/-- Video is no container. -/
theorem video_isData : ¬(ChunkTag.video = .riff ∨ ChunkTag.video = .list) := by
  decide

/-- The feed of a file of packed payloads, all within the limit of the reader. -/
theorem feed_packed {t : FileTree} {payloads : List Bytes}
    (found : t.stat avi = .ok (.file (payloads.flatMap (Chunk.packed .video)) mode))
    (fits : ∀ payload ∈ payloads, payload.length ≤ 67108864) :
    ((Source.file { path := avi, splitting := .chunks .video }).feed t).messages =
        (Frame.number 1 (payloads.map (Chunk.packed .video))).map .ok ∧
      ((Source.file { path := avi, splitting := .chunks .video }).feed t).bytesRead =
        (payloads.flatMap (Chunk.packed .video)).length := by
  obtain ⟨items, hencode, htagged⟩ := ChunkFile.exists_items_packed video_isData fits
  have hframes := ChunkFile.frames_encode .video items [] 1
  rw [List.append_nil, ChunkFile.frames_end, List.append_nil, Nat.add_zero, hencode,
    htagged] at hframes
  rw [Source.feed_file _ found, hframes]
  exact ⟨rfl, rfl⟩

/-- Payloads that were packed are restored. -/
theorem transcode_unpacking (suits : (unpacking avi output).SuitsOutput) {payloads : List Bytes}
    (found : setting.tree.stat avi = .ok (.file (payloads.flatMap (Chunk.packed .video)) mode))
    (fits : ∀ payload ∈ payloads, payload.length ≤ 67108864) {beside there : FileTree}
    (hpart : setting.tree.create (output ++ ".part") = .ok beside)
    (hpath : setting.tree.create output = .ok there) :
    (∃ summary, (Cli.transcode setting (unpacking avi output)).1 = .ok summary ∧
      summary.framesIn = payloads.length ∧ summary.framesOut = payloads.length ∧
      summary.bytesIn = (payloads.flatMap (Chunk.packed .video)).length) ∧
    setting.tree.AgreesBut [output, output ++ ".part"]
      (Cli.transcode setting (unpacking avi output)).2 ∧
    ∃ mode, (Cli.transcode setting (unpacking avi output)).2.stat output =
      .ok (.file payloads.flatten mode) := by
  rw [Cli.transcode_eq (openJob_unpacking setting.tree)]
  obtain ⟨timeout, hprepared⟩ := prepared_unpacker suits setting.surroundings
  obtain ⟨hmessages, hread⟩ := feed_packed found fits
  have hunwrap : ∀ payload ∈ payloads,
      Chunk.unwrap .video (Chunk.packed .video payload) = .ok payload := fun payload h =>
    Chunk.unwrap_packed (Nat.lt_of_le_of_lt (fits payload h) (by decide))
  have good : ∀ data ∈ payloads.map (Chunk.packed .video),
      ∃ payload, Chunk.unwrap .video data = .ok payload := by
    intro data hdata
    obtain ⟨payload, h, rfl⟩ := List.mem_map.1 hdata
    exact ⟨payload, hunwrap payload h⟩
  have hrestored : (payloads.map (Chunk.packed .video)).flatMap unpacked = payloads.flatten := by
    rw [List.flatMap_def, List.map_map]
    congr 1
    refine (List.map_congr_left fun payload h => ?_).trans (List.map_id payloads)
    rw [Function.comp, unpacked, hunwrap payload h]
    rfl
  obtain ⟨⟨summary, hresult, hin, hout, hbytes⟩, agrees, hstat⟩ :=
    Pipeline.run_of_steady steady_unpacks
    hprepared unpacks_configured rfl hmessages good
    { tree := setting.tree, path := output, keepPartial := false } rfl rfl hpart hpath
  rw [List.length_map] at hin hout
  rw [hrestored] at hstat
  exact ⟨⟨summary, hresult, hin, hout, hbytes.trans hread⟩, agrees, hstat⟩

/-- A file that begins with a chunk above the limit is not unpacked. -/
theorem transcode_unpacking_of_cut {content : Bytes} {fault : DataFault}
    (found : setting.tree.stat avi = .ok (.file content mode)) (cut : ChunkFile.Cut content fault) :
    ∃ e, (Cli.transcode setting (unpacking avi output)).1 = .error e := by
  by_cases suits : (unpacking avi output).SuitsOutput
  · rw [Cli.transcode_eq (openJob_unpacking setting.tree)]
    obtain ⟨timeout, hprepared⟩ := prepared_unpacker suits setting.surroundings
    have hmessages : ((Source.file { path := avi, splitting := .chunks .video }).feed
        setting.surroundings.tree).messages = [.error (.invalidData fault)] := by
      rw [← ChunkFile.frames_cut cut .video 1]
      exact congrArg Feed.messages (Source.feed_file _ found)
    exact ⟨_,
      Pipeline.run_of_stop hprepared (steady_unpacks.inProcess _ unpacks_configured) hmessages
      (.source _ _ rfl) rfl⟩
  · exact Cli.exists_transcode_error (openJob_unpacking setting.tree)
      (mt (check_unpacking _).1 suits)

end Unpacking

/-! ## There and back -/

section RoundTrip

variable {setting : Cli.Setting} {input avi output : String} {data : Bytes} {mode frameSize : Nat}

/-- The paths of both jobs: the input and all that is written, each at a place of its own, and files
can be created at the latter. -/
structure Paths (t : FileTree) (input avi output : String) : Prop where
  writable : ∀ path ∈ [avi, avi ++ ".part", output, output ++ ".part"], ∃ t', t.create path = .ok t'
  distinct : [input, avi, avi ++ ".part", output, output ++ ".part"].Pairwise
    fun path other => t.locate path ≠ t.locate other

/-- Frames within the limit of the reader come back. -/
theorem round_trip_of_small (positive : 0 < frameSize) (word : frameSize < UInt32.size)
    (found : setting.tree.stat input = .ok (.file data mode))
    (paths : Paths setting.tree input avi output)
    (suits : (packing input avi frameSize).SuitsOutput)
    (suits' : (unpacking avi output).SuitsOutput)
    (small : min frameSize data.length ≤ 67108864) :
    let packed := Cli.transcode setting (packing input avi frameSize)
    let restored := Cli.transcode { setting with tree := packed.2 } (unpacking avi output)
    let pieces := Splitting.pieces frameSize data
    ∃ summary summary', packed.1 = .ok summary ∧ restored.1 = .ok summary' ∧
      summary.framesIn = pieces.length ∧ summary.framesOut = pieces.length ∧
      summary'.framesIn = pieces.length ∧ summary'.framesOut = pieces.length ∧
      (∃ content mode, packed.2.stat avi = .ok (.file content mode) ∧
        restored.2.stat avi = .ok (.file content mode) ∧
        content.length = data.length + 8 * pieces.length +
          pieces.countP (fun piece => piece.length % 2 = 1) ∧
        summary'.bytesIn = content.length) ∧
      restored.2.stat input = .ok (.file data mode) ∧
      ∃ mode, restored.2.stat output = .ok (.file data mode) := by
  intro packed restored pieces
  have hpieces : ∀ piece ∈ pieces, piece.length ≤ 67108864 := fun piece h =>
    Nat.le_trans (Splitting.length_le_of_mem_pieces h) small
  have hflatten : pieces.flatten = data := Splitting.flatten_pieces positive data
  obtain ⟨hinput, hrest⟩ := List.pairwise_cons.1 paths.distinct
  obtain ⟨havi, _⟩ := List.pairwise_cons.1 hrest
  -- the first job
  obtain ⟨_, hpart⟩ := paths.writable (avi ++ ".part") (by simp)
  obtain ⟨_, hpath⟩ := paths.writable avi (by simp)
  obtain ⟨⟨summary, hpacked, hin, hout⟩, agrees, mode', hfile⟩ :=
    transcode_packing positive word suits
    found hpart hpath fun piece h => Nat.le_trans (hpieces piece h) (by decide)
  -- it changed no directory, so the second one finds its paths as the first one did
  have same := agrees.toSameDirectories
  obtain ⟨_, hpart'⟩ := paths.writable (output ++ ".part") (by simp)
  obtain ⟨_, hpath'⟩ := paths.writable output (by simp)
  obtain ⟨_, hpart'⟩ := same.create hpart'
  obtain ⟨_, hpath'⟩ := same.create hpath'
  obtain ⟨⟨summary', hrestored, hin', hout', hbytes⟩, agrees', hback⟩ :=
    @transcode_unpacking avi output { setting with tree := packed.2 } mode' suits' pieces
      hfile hpieces
      _ _ hpart' hpath'
  rw [hflatten] at hback
  refine ⟨summary, summary', hpacked, hrestored, hin, hout, hin', hout', ?_, ?_, hback⟩
  · refine ⟨_, mode', hfile, ?_, ?_, hbytes⟩
    · refine agrees'.stat_eq_of_distinct same (fun other hother => havi other ?_) hfile
      exact List.mem_cons_of_mem _ hother
    · rw [Chunk.length_flatMap_packed, hflatten]
  · have hkept := agrees.stat_eq_of_distinct (.refl _) (fun other hother => hinput other ?_) found
    · refine agrees'.stat_eq_of_distinct same (fun other hother => hinput other ?_) hkept
      exact List.mem_cons_of_mem _ (List.mem_cons_of_mem _ hother)
    · rcases List.mem_cons.1 hother with rfl | hother
      · exact List.mem_cons_self
      · obtain rfl := List.mem_singleton.1 hother
        exact List.mem_cons_of_mem _ List.mem_cons_self

/-- The first job packs frames that the second one does not read. -/
theorem transcode_unpacking_of_large (positive : 0 < frameSize) (word : frameSize < UInt32.size)
    (found : setting.tree.stat input = .ok (.file data mode))
    (paths : Paths setting.tree input avi output)
    (suits : (packing input avi frameSize).SuitsOutput)
    (large : 67108864 < min frameSize data.length) (fits : min frameSize data.length ≤ frameLimit) :
    let packed := Cli.transcode setting (packing input avi frameSize)
    ∃ e, (Cli.transcode { setting with tree := packed.2 } (unpacking avi output)).1 = .error e := by
  intro packed
  have begun : data ≠ [] := by
    rintro rfl
    simp at large
  have hfirst : (data.take frameSize).length = min frameSize data.length := List.length_take
  obtain ⟨_, hpart⟩ := paths.writable (avi ++ ".part") (by simp)
  obtain ⟨_, hpath⟩ := paths.writable avi (by simp)
  obtain ⟨_, _, mode', hfile⟩ := transcode_packing positive word suits found hpart hpath
    fun piece h => Nat.le_trans (Splitting.length_le_of_mem_pieces h) fits
  rw [Splitting.pieces_cons positive begun, List.flatMap_cons] at hfile
  -- the first chunk is above the limit, so the reader stops in front of it
  obtain ⟨fault, cut⟩ := ChunkFile.cut_packed video_isData (hfirst ▸ large)
    (Nat.lt_of_le_of_lt (hfirst ▸ fits) (by decide))
    ((Splitting.pieces frameSize (data.drop frameSize)).flatMap (Chunk.packed .video))
  exact transcode_unpacking_of_cut hfile cut

/-- Failure of one of the two jobs where a condition of the round trip is violated. -/
theorem round_trip_fails (positive : 0 < frameSize) (word : frameSize < UInt32.size)
    (found : setting.tree.stat input = .ok (.file data mode))
    (paths : Paths setting.tree input avi output)
    (h : ¬((packing input avi frameSize).SuitsOutput ∧ (unpacking avi output).SuitsOutput ∧
      min frameSize data.length ≤ 67108864)) :
    let packed := Cli.transcode setting (packing input avi frameSize)
    let restored := Cli.transcode { setting with tree := packed.2 } (unpacking avi output)
    (∃ e, packed.1 = .error e) ∨ ∃ e, restored.1 = .error e := by
  intro packed restored
  by_cases suits : (packing input avi frameSize).SuitsOutput
  · by_cases suits' : (unpacking avi output).SuitsOutput
    · have large : 67108864 < min frameSize data.length := by
        apply Nat.not_le.1
        intro small
        exact h ⟨suits, suits', small⟩
      -- a frame that is too large for the encoder as well does not even get into the AVI file
      by_cases fits : min frameSize data.length ≤ frameLimit
      · right
        exact transcode_unpacking_of_large positive word found paths suits large fits
      · left
        exact transcode_packing_of_large positive word suits found (Nat.not_le.1 fits)
    · right
      exact Cli.exists_transcode_error (openJob_unpacking _) (mt (check_unpacking _).1 suits')
  · left
    exact Cli.exists_transcode_error (openJob_packing positive word _)
      (mt (check_packing positive word _).1 suits)

/-- **Raw video comes back from an AVI file exactly if its frames are within the limit of the
reader.** For all contents and all frame sizes, on distinct paths that can be written: the job that
packs a file into an AVI file and the job that unpacks it both succeed, the latter with the contents
of the file as its output, if and only if the first frame has at most 67108864 bytes and neither
output path has the extension of a format that its exporter does not support. If both succeed, each
reports as many frames as it takes to hold the contents, the AVI file has eight bytes more for each
frame and one more for each of odd size, and all of them are read. The input and the AVI file are
still there then. -/
theorem transcode_round_trip (setting : Cli.Setting) (input avi output : String) (data : Bytes)
    (mode frameSize : Nat) (positive : 1 ≤ frameSize) (word : frameSize ≤ 2 ^ 32 - 1)
    (found : setting.tree.stat input = .ok (.file data mode))
    (paths : Paths setting.tree input avi output) :
    let packed := Cli.transcode setting (packing input avi frameSize)
    let restored := Cli.transcode { setting with tree := packed.2 } (unpacking avi output)
    let count := (data.length + frameSize - 1) / frameSize
    ((∃ summary summary' mode, packed.1 = .ok summary ∧ restored.1 = .ok summary' ∧
        restored.2.stat output = .ok (.file data mode)) ↔
      (packing input avi frameSize).SuitsOutput ∧ (unpacking avi output).SuitsOutput ∧
        min frameSize data.length ≤ 67108864) ∧
    ∀ summary summary', packed.1 = .ok summary → restored.1 = .ok summary' →
      summary.framesIn = count ∧ summary.framesOut = count ∧
      summary'.framesIn = count ∧ summary'.framesOut = count ∧
      (∃ content mode, packed.2.stat avi = .ok (.file content mode) ∧
        restored.2.stat avi = .ok (.file content mode) ∧
        content.length = data.length + 8 * count +
          (Splitting.pieces frameSize data).countP (fun piece => piece.length % 2 = 1) ∧
        summary'.bytesIn = content.length) ∧
      restored.2.stat input = .ok (.file data mode) ∧
      ∃ mode, restored.2.stat output = .ok (.file data mode) := by
  intro packed restored count
  have hword : frameSize < UInt32.size := Nat.lt_of_le_of_lt word (by decide)
  have hcount : (Splitting.pieces frameSize data).length = count :=
    Splitting.length_pieces frameSize data
  -- where both jobs succeed, nothing stands in the way
  have possible : ∀ summary summary', packed.1 = .ok summary → restored.1 = .ok summary' →
      (packing input avi frameSize).SuitsOutput ∧ (unpacking avi output).SuitsOutput ∧
        min frameSize data.length ≤ 67108864 := by
    intro summary summary' hpacked hrestored
    apply Classical.byContradiction
    intro hnot
    rcases round_trip_fails positive hword found paths hnot with ⟨e, hfails⟩ | ⟨e, hfails⟩
    · cases hpacked.symm.trans hfails
    · cases hrestored.symm.trans hfails
  constructor
  · constructor
    · rintro ⟨summary, summary', _, hpacked, hrestored, _⟩
      exact possible summary summary' hpacked hrestored
    · rintro ⟨suits, suits', small⟩
      obtain ⟨summary, summary', hpacked, hrestored, _, _, _, _, _, _, mode', hback⟩ :=
        round_trip_of_small positive hword found paths suits suits' small
      exact ⟨summary, summary', mode', hpacked, hrestored, hback⟩
  · intro summary summary' hpacked hrestored
    obtain ⟨suits, suits', small⟩ := possible summary summary' hpacked hrestored
    obtain ⟨_, _, hpacked', hrestored', hfacts⟩ :=
      round_trip_of_small positive hword found paths suits suits' small
    obtain rfl := Except.ok.inj (hpacked.symm.trans hpacked')
    obtain rfl := Except.ok.inj (hrestored.symm.trans hrestored')
    rw [hcount] at hfacts
    exact hfacts

end RoundTrip

/-- Three bytes of raw video. -/
def sample : Cli.Setting where
  tree := { nodes := [(["in.raw"], .file [1, 2, 3] Node.newMode)] }
  tools := {}
  elapsed := ""
  occasion := { today := ⟨2026, 3, 19⟩, pack := id }

/-- Names in the working directory, all different. -/
theorem paths_sample {output : String} (h : output = "back.raw" ∨ output = "back.ogg") :
    Paths sample.tree "in.raw" "clip.avi" output := by
  have hinput : sample.tree.locate "in.raw" = .ok ["in.raw"] := rfl
  have havi : sample.tree.locate "clip.avi" = .ok ["clip.avi"] := rfl
  have hpart : sample.tree.locate "clip.avi.part" = .ok ["clip.avi.part"] := rfl
  have hraw : sample.tree.locate "back.raw" = .ok ["back.raw"] := rfl
  have hrawPart : sample.tree.locate "back.raw.part" = .ok ["back.raw.part"] := rfl
  have hogg : sample.tree.locate "back.ogg" = .ok ["back.ogg"] := rfl
  have hoggPart : sample.tree.locate "back.ogg.part" = .ok ["back.ogg.part"] := rfl
  rcases h with rfl | rfl
  · constructor
    · simp only [List.forall_mem_cons]
      exact ⟨⟨_, rfl⟩, ⟨_, rfl⟩, ⟨_, rfl⟩, ⟨_, rfl⟩, nofun⟩
    · simp [hinput, havi, hpart, hraw, hrawPart]
  · constructor
    · simp only [List.forall_mem_cons]
      exact ⟨⟨_, rfl⟩, ⟨_, rfl⟩, ⟨_, rfl⟩, ⟨_, rfl⟩, nofun⟩
    · simp [hinput, havi, hpart, hogg, hoggPart]

/-- The extension of the AVI file names a format of the encoder. -/
theorem suitsOutput_sample : (packing "in.raw" "clip.avi" 2).SuitsOutput := by
  rintro _ ⟨⟩
  rfl

/-- Frames of two bytes: an odd one is left, so the AVI file has 20 bytes. -/
theorem transcode_round_trip_sample :
    let packed := Cli.transcode sample (packing "in.raw" "clip.avi" 2)
    let restored := Cli.transcode { sample with tree := packed.2 } (unpacking "clip.avi" "back.raw")
    ∃ summary summary' mode, packed.1 = .ok summary ∧ restored.1 = .ok summary' ∧
      summary.framesIn = 2 ∧ summary'.bytesIn = 20 ∧
      restored.2.stat "back.raw" = .ok (.file [1, 2, 3] mode) := by
  intro packed restored
  have suits' : (unpacking "clip.avi" "back.raw").SuitsOutput := by
    rintro _ ⟨⟩
    rfl
  obtain ⟨succeeds, reports⟩ := transcode_round_trip sample "in.raw" "clip.avi" "back.raw" [1, 2, 3]
    Node.newMode 2 (by decide) (by decide) rfl (paths_sample (.inl rfl))
  obtain ⟨summary, summary', mode, hpacked, hrestored, hback⟩ :=
    succeeds.2 ⟨suitsOutput_sample, suits', by decide⟩
  obtain ⟨hin, _, _, _, ⟨content, _, _, _, hlength, hbytes⟩, _⟩ :=
    reports summary summary' hpacked hrestored
  exact ⟨summary, summary', mode, hpacked, hrestored, hin, hbytes.trans hlength, hback⟩

/-- The limit of the reader is not all that counts: small frames are packed, but not restored into a
path whose extension names a format that raw video has not. -/
theorem unpacking_refused_by_extension :
    let packed := Cli.transcode sample (packing "in.raw" "clip.avi" 2)
    let restored := Cli.transcode { sample with tree := packed.2 } (unpacking "clip.avi" "back.ogg")
    sample.tree.stat "in.raw" = .ok (.file [1, 2, 3] Node.newMode) ∧
      Paths sample.tree "in.raw" "clip.avi" "back.ogg" ∧
      min 2 ([1, 2, 3] : Bytes).length ≤ 67108864 ∧ (∃ summary, packed.1 = .ok summary) ∧
      restored.1 = .error (.validation (.unsupportedFormat "raw" "OGG" "RAW")) := by
  intro packed restored
  have paths : Paths sample.tree "in.raw" "clip.avi" "back.ogg" := paths_sample (.inr rfl)
  refine ⟨rfl, paths, by decide, ?_, ?_⟩
  · obtain ⟨_, hpart⟩ := paths.writable ("clip.avi" ++ ".part") (by simp)
    obtain ⟨_, hpath⟩ := paths.writable "clip.avi" (by simp)
    have found : sample.tree.stat "in.raw" = .ok (.file [1, 2, 3] Node.newMode) := rfl
    obtain ⟨⟨summary, hpacked, _⟩, _⟩ :=
      transcode_packing (by decide) (by decide) suitsOutput_sample found hpart hpath (by decide)
    exact ⟨summary, hpacked⟩
  · exact Cli.transcode_of_check (openJob_unpacking packed.2) rfl

end Divx

end Transcode
