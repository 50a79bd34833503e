import Transcode.Proofs.DivxRoundTrip
/-!
# Video from one AVI file into another

A job takes the video chunks of an AVI file out and packs them into another one (`Divx.remuxing`).
Only their payloads go in, so the new file is in a normal form: containers and other chunks are
gone, and pad bytes are zero. It is read to the same payloads and has itself as its normal form
(`Divx.remuxing_normalises`).
-/

set_option autoImplicit false

namespace Transcode

/-! ## Payloads of a chunk file -/

namespace ChunkFile

variable {tag : ChunkTag}

/-- The payload of an item that is a data chunk with the given tag. -/
def Item.payload? (tag : ChunkTag) : Item → Option Bytes
  | container _ _ _ => none
  | chunk header payload _ _ _ _ _ => if header.tag = tag then some payload else none

/-- The payloads of the data chunks with the given tag, in the order of the file. -/
def payloads (tag : ChunkTag) (items : List Item) : List Bytes :=
  items.filterMap (Item.payload? tag)

/-- The payloads are what the data chunks unwrap to. -/
theorem map_unwrap_tagged (tag : ChunkTag) (items : List Item) :
    (tagged tag items).map (Chunk.unwrap tag) = (payloads tag items).map .ok := by
  induction items with
  | nil => rfl
  | cons item rest ih =>
      simp only [tagged, payloads] at ih ⊢
      cases item with
      | container header form opens => exact ih
      | chunk header payload pad isData fits whole padded =>
          by_cases htag : header.tag = tag
          · subst htag
            have hframe : (Item.chunk header payload pad isData fits whole padded).frame?
              header.tag =
                some (header.toBytes ++ (payload ++ pad)) := if_pos rfl
            have hpayload : (Item.chunk header payload pad isData fits whole padded).payload?
              header.tag =
                some payload := if_pos rfl
            rw [List.filterMap_cons_some hframe, List.filterMap_cons_some hpayload,
              List.map_cons, ih, Chunk.unwrap_parts whole padded, List.map_cons]
          · have hframe : (Item.chunk header payload pad isData fits whole padded).frame? tag =
              none :=
              if_neg htag
            have hpayload : (Item.chunk header payload pad isData fits whole padded).payload? tag =
              none :=
              if_neg htag
            rw [List.filterMap_cons_none hframe, List.filterMap_cons_none hpayload, ih]

theorem length_le_of_mem_payloads {items : List Item} {payload : Bytes}
    (h : payload ∈ payloads tag items) : payload.length ≤ 67108864 := by
  obtain ⟨item, -, hpayload⟩ := List.mem_filterMap.1 h
  cases item with
  | container header form opens => cases hpayload
  | chunk header payload' pad isData fits whole padded =>
      simp only [Item.payload?, Option.ite_none_right_eq_some, Option.some.injEq] at hpayload
      obtain ⟨-, rfl⟩ := hpayload
      rw [whole]
      exact fits

/-- Packed payloads within the limit of the reader are a chunk file of their own. -/
theorem exists_items_payloads (isData : ¬(tag = .riff ∨ tag = .list)) {given : List Bytes}
    (fits : ∀ payload ∈ given, payload.length ≤ 67108864) :
    ∃ items, encode items = given.flatMap (Chunk.packed tag) ∧ payloads tag items = given := by
  obtain ⟨items, hencode, htagged⟩ := exists_items_packed isData fits
  refine ⟨items, hencode, ?_⟩
  have hunwrap : (given.map (Chunk.packed tag)).map (Chunk.unwrap tag) = given.map .ok := by
    rw [List.map_map]
    apply List.map_congr_left
    intro payload hpayload
    exact Chunk.unwrap_packed (Nat.lt_of_le_of_lt (fits payload hpayload) (by decide))
  have hpayloads := map_unwrap_tagged tag items
  rw [htagged, hunwrap] at hpayloads
  exact ((List.map_inj_right fun _ _ => Except.ok.inj).1 hpayloads).symm

end ChunkFile

namespace Divx

/-! ## The plugins -/

/-- The decoder in front of an encoder that packs frames up to the limit. -/
inductive Repacks : List Builtin → Prop where
  | mk {encoder : Encoder} (kind : encoder.descriptor.kind = .encoder) (wraps : encoder.raw = false)
      (limit : encoder.maxFrameSize = frameLimit) : Repacks [.divxDecoder {}, .divxEncoder encoder]

theorem decoder_result {frame : Frame} {payload : Bytes}
    (h : Chunk.unwrap .video frame.data = .ok payload) :
    (Plugin.process frame (Builtin.divxDecoder {})).result = .ok (frame.withData payload) := by
  have hresult : (Plugin.process frame (Builtin.divxDecoder {})).result =
      (Chunk.unwrap .video frame.data).map frame.withData := rfl
  rw [hresult, h]
  rfl

theorem steady_repacks :
    Plugin.Steady Repacks
      (fun data => ∃ payload, Chunk.unwrap .video data = .ok payload ∧ payload.length ≤ frameLimit)
      (fun data => Chunk.packed .video (unpacked data)) where
  passes plugins frame := by
    rintro @⟨encoder, kind, wraps, limit⟩ ⟨payload, hpayload, hfits⟩
    have hunpacked : unpacked frame.data = payload := by
      rw [unpacked, hpayload]
      rfl
    have hdata : (frame.withData payload).data.length ≤ frameLimit := hfits
    have hencode := encode_of_fits wraps limit hdata
    have hpacked : (Plugin.process (frame.withData payload) (Builtin.divxEncoder encoder)).result =
        .ok (frame.withData (Chunk.packed .video payload)) := by
      rw [process_encoder kind, hencode]
      rfl
    have passes := Plugin.Passes.next (decoder_result hpayload) (.next hpacked (.done _))
    rw [process_encoder kind, hencode] at passes
    rw [hunpacked]
    exact ⟨_, passes, .mk kind wraps limit⟩
  inProcess plugins := by
    rintro ⟨⟩
    exact List.forall_mem_cons.2 ⟨rfl, List.forall_mem_singleton.2 rfl⟩
  finishes plugins := by
    rintro ⟨⟩
    rfl

/-! ## The job -/

/-- The video of an AVI file is packed into another one. -/
def remuxing (input output : String) : Job where
  input := input
  output := output
  selected := wrappedDescriptor
  importer? := some decoderDescriptor

/-- A target for an input: a path with the extension of AVI files, at which and beside which a file
can be created, and beside which the input is not. An input there would be emptied while it is read.
-/
structure IsTarget (t : FileTree) (input path : String) : Prop where
  extension : FormatTag.ofPath? path = some ⟨"AVI"⟩
  writable : ∃ t', t.create path = .ok t'
  writableBeside : ∃ t', t.create (path ++ ".part") = .ok t'
  apart : t.locate input ≠ t.locate (path ++ ".part")

variable {input output : String}

/-- Nothing stands beside a fresh path, so the input does not. -/
theorem apart_of_fresh {t : FileTree} {node : Node} (found : t.stat input = .ok node)
    (fresh : t.stat (output ++ ".part") = .error .noEntry) :
    t.locate input ≠ t.locate (output ++ ".part") := by
  intro hsame
  rw [FileTree.stat, hsame, ← FileTree.stat, fresh] at found
  cases found

theorem check_remuxing (named : FormatTag.ofPath? output = some ⟨"AVI"⟩)
    (available : String → Bool) :
    (remuxing input output).check available = .ok () := by
  have suits : (remuxing input output).SuitsOutput := by
    intro tag htag
    obtain rfl := Option.some.inj (named.symm.trans htag)
    rfl
  have bare : ¬wrappedDescriptor.isRawBitstream = true := by decide
  have raw : (remuxing input output).writesRaw = .ok false := if_neg bare
  exact (Job.check_eq_ok_iff_suitsOutput rfl rfl rfl rfl raw rfl rfl rfl rfl).2 suits

/-- The instances of the job. -/
def remuxer (input output : String) : Pipeline Builtin where
  job := remuxing input output
  importer? := some (.divxDecoder {})
  exporter := .divxEncoder .wrapped

theorem openJob_remuxing (t : FileTree) :
    Cli.openJob Cli.registry t (remuxing input output) =
      .ok (.file { path := input, splitting := .chunks .video },
        { tree := t, path := output, keepPartial := false }, remuxer input output) := by
  have hsource : Source.ofJob (remuxing input output) =
      .ok (.file { path := input, splitting := .chunks .video }) := rfl
  have hsink : FileSink.ofJob t (remuxing input output) =
      .ok { tree := t, path := output, keepPartial := false } := rfl
  have hexporter : Cli.registry.create .encoder "divx4" = .ok (.divxEncoder .wrapped) := rfl
  have himporter : Cli.registry.create .decoder "divx4" = .ok (.divxDecoder {}) := rfl
  have hpipeline : Pipeline.create (remuxing input output) Cli.registry =
    .ok (remuxer input output) :=
    Pipeline.create_eq rfl hexporter himporter
  rw [Cli.openJob, hsource, hsink, hpipeline]
  rfl

theorem repacks_configured : Repacks (remuxer input output).configured :=
  .mk rfl rfl rfl

theorem prepared_remuxer (named : FormatTag.ofPath? output = some ⟨"AVI"⟩) (around : Surroundings) :
    ∃ timeout, (remuxer input output).prepared around = .ok timeout := by
  apply Pipeline.exists_prepared
  · exact check_remuxing named _
  · rfl

/-- The data chunks of a file are good frames for the plugins. -/
theorem repacks_tagged (items : List ChunkFile.Item) :
    ∀ data ∈ ChunkFile.tagged .video items,
      ∃ payload, Chunk.unwrap .video data = .ok payload ∧ payload.length ≤ frameLimit := by
  intro data hdata
  have hmem : Chunk.unwrap .video data ∈ (ChunkFile.payloads .video items).map .ok := by
    rw [← ChunkFile.map_unwrap_tagged]
    exact List.mem_map_of_mem hdata
  obtain ⟨payload, hpayload, hunwrap⟩ := List.mem_map.1 hmem
  refine ⟨payload, hunwrap.symm, ?_⟩
  exact Nat.le_trans (ChunkFile.length_le_of_mem_payloads hpayload) (by decide)

theorem flatMap_tagged (items : List ChunkFile.Item) :
    ((ChunkFile.tagged .video items).flatMap fun data => Chunk.packed .video (unpacked data)) =
      (ChunkFile.payloads .video items).flatMap (Chunk.packed .video) := by
  have hunpacked : (ChunkFile.tagged .video items).map unpacked =
      ChunkFile.payloads .video items := by
    have hunwrap := congrArg (List.map fun r : Except Error Bytes => r.toOption.getD [])
      (ChunkFile.map_unwrap_tagged .video items)
    simp only [List.map_map] at hunwrap
    exact hunwrap.trans (List.map_id _)
  rw [← hunpacked, List.flatMap_map]

variable {setting : Cli.Setting} {mode : Nat}

theorem feed_items {t : FileTree} {items : List ChunkFile.Item}
    (found : t.stat input = .ok (.file (ChunkFile.encode items) mode)) :
    ((Source.file { path := input, splitting := .chunks .video }).feed t).messages =
      (Frame.number 1 (ChunkFile.tagged .video items)).map .ok := by
  have hframes := ChunkFile.frames_encode .video items [] 1
  rw [List.append_nil, ChunkFile.frames_end, List.append_nil] at hframes
  rw [Source.feed_file _ found, hframes]

theorem feed_cut {t : FileTree} {items : List ChunkFile.Item} {rest : Bytes} {fault : DataFault}
    (cut : ChunkFile.Cut rest fault)
    (found : t.stat input = .ok (.file (ChunkFile.encode items ++ rest) mode)) :
    ((Source.file { path := input, splitting := .chunks .video }).feed t).messages =
      (Frame.number 1 (ChunkFile.tagged .video items)).map .ok ++
        [.error (.invalidData fault)] := by
  rw [Source.feed_file _ found, ChunkFile.frames_encode, ChunkFile.frames_cut cut]

/-- Remuxing a list of items gives its normal form. -/
theorem transcode_remuxing {items : List ChunkFile.Item}
    (found : setting.tree.stat input = .ok (.file (ChunkFile.encode items) mode))
    (target : IsTarget setting.tree input output) :
    (∃ summary, (Cli.transcode setting (remuxing input output)).1 = .ok summary) ∧
    setting.tree.AgreesBut [output, output ++ ".part"]
      (Cli.transcode setting (remuxing input output)).2 ∧
    ∃ mode, (Cli.transcode setting (remuxing input output)).2.stat output =
      .ok (.file ((ChunkFile.payloads .video items).flatMap (Chunk.packed .video)) mode) := by
  rw [Cli.transcode_eq (openJob_remuxing setting.tree)]
  obtain ⟨timeout, hprepared⟩ := @prepared_remuxer input _ target.extension setting.surroundings
  obtain ⟨_, hpart⟩ := target.writableBeside
  obtain ⟨_, hpath⟩ := target.writable
  obtain ⟨⟨summary, hresult, -⟩, agrees, hstat⟩ := Pipeline.run_of_steady steady_repacks hprepared
    repacks_configured rfl (feed_items found) (repacks_tagged items)
    { tree := setting.tree, path := output, keepPartial := false } rfl rfl hpart hpath
  rw [flatMap_tagged] at hstat
  exact ⟨⟨summary, hresult⟩, agrees, hstat⟩

/-- A file with a cut behind its items makes the job fail, and the failure names the last video
chunk. -/
theorem transcode_remuxing_of_cut {items : List ChunkFile.Item} {rest : Bytes} {fault : DataFault}
    (cut : ChunkFile.Cut rest fault)
    (found : setting.tree.stat input = .ok (.file (ChunkFile.encode items ++ rest) mode))
    (target : IsTarget setting.tree input output) :
    (Cli.transcode setting (remuxing input output)).1 = .error (.pipeline (.data fault)
      (Pump.lastNumber (Frame.number 1 (ChunkFile.tagged .video items)))) := by
  rw [Cli.transcode_eq (openJob_remuxing setting.tree)]
  obtain ⟨timeout, hprepared⟩ := @prepared_remuxer input _ target.extension setting.surroundings
  obtain ⟨_, hpart⟩ := target.writableBeside
  exact Pipeline.run_of_steady_failure steady_repacks hprepared repacks_configured rfl
    (feed_cut cut found) (repacks_tagged items)
    { tree := setting.tree, path := output, keepPartial := false } rfl hpart

theorem lastNumber_number_cons (start : Nat) (data : Bytes) (rest : List Bytes) :
    Pump.lastNumber (Frame.number start (data :: rest)) = some (start + rest.length) := by
  induction rest generalizing start data with
  | nil => rfl
  | cons next rest ih =>
      have hbehind := ih (start + 1) next
      rw [Pump.lastNumber, Frame.number, Frame.number, List.getLast?_cons_cons, ← Frame.number,
        ← Pump.lastNumber, hbehind, List.length_cons]
      congr 1
      omega

/-- Frames that are numbered from one end with their number. -/
theorem lastNumber_number (payloads : List Bytes) :
    Pump.lastNumber (Frame.number 1 payloads) =
      if payloads.length = 0 then none else some payloads.length := by
  cases payloads with
  | nil => rfl
  | cons data rest =>
      rw [lastNumber_number_cons, List.length_cons, if_neg (Nat.succ_ne_zero _), Nat.add_comm]

/-! ## Normal forms -/

theorem map_wrap {payloads : List Bytes} (fits : ∀ payload ∈ payloads, payload.length ≤ 67108864) :
    payloads.map (Chunk.wrap .video) = (payloads.map (Chunk.packed .video)).map .ok := by
  rw [List.map_map]
  apply List.map_congr_left
  intro payload hpayload
  exact Chunk.wrap_eq_packed (Nat.lt_of_le_of_lt (fits payload hpayload) (by decide))

/-- A list of items is read to the payloads of its video chunks. -/
theorem readsTo_payloads {t : FileTree} {items : List ChunkFile.Item} {frames : List Frame}
    {ending : Except Error Unit} {last : Source}
    (found : t.stat input = .ok (.file (ChunkFile.encode items) mode))
    (reads : Source.ReadsTo t (.file { path := input, splitting := .chunks .video }) frames
      ending last) :
    ending = .ok () ∧ frames.map (fun frame => Chunk.unwrap .video frame.data) =
      (ChunkFile.payloads .video items).map .ok := by
  obtain ⟨rfl, rfl, -⟩ := ChunkFile.readsTo_encode found reads
  refine ⟨rfl, ?_⟩
  calc
    (Frame.number 1 (ChunkFile.tagged .video items)).map
          (fun frame => Chunk.unwrap .video frame.data)
      = ((Frame.number 1 (ChunkFile.tagged .video items)).map Frame.data).map
          (Chunk.unwrap .video) :=
        (List.map_map (g := Chunk.unwrap .video)).symm
    _ = (ChunkFile.tagged .video items).map (Chunk.unwrap .video) := by rw [Frame.map_data_number]
    _ = (ChunkFile.payloads .video items).map .ok := ChunkFile.map_unwrap_tagged .video items

section NormalForm

variable {t : FileTree} {payloads : List Bytes}

/-- A file in normal form is read to its payloads. -/
theorem exists_readsTo_packed (fits : ∀ payload ∈ payloads, payload.length ≤ 67108864)
    (found : t.stat input = .ok (.file (payloads.flatMap (Chunk.packed .video)) mode)) :
    ∃ frames last, Source.ReadsTo t (.file { path := input, splitting := .chunks .video })
        frames (.ok ()) last ∧
      frames.map (fun frame => Chunk.unwrap .video frame.data) = payloads.map .ok := by
  obtain ⟨items, hencode, rfl⟩ := ChunkFile.exists_items_payloads video_isData fits
  rw [← hencode] at found
  obtain ⟨frames, ending, last, reads, -, -⟩ := Source.exists_readsTo_feed t
    (.file { path := input, splitting := .chunks .video })
  obtain ⟨rfl, hframes⟩ := readsTo_payloads found reads
  exact ⟨frames, last, reads, hframes⟩

/-- A file in normal form is turned into itself. -/
theorem transcode_remuxing_packed (fits : ∀ payload ∈ payloads, payload.length ≤ 67108864)
    (found : setting.tree.stat input = .ok (.file (payloads.flatMap (Chunk.packed .video)) mode))
    (target : IsTarget setting.tree input output) :
    (∃ summary, (Cli.transcode setting (remuxing input output)).1 = .ok summary) ∧
    ∃ mode, (Cli.transcode setting (remuxing input output)).2.stat output =
      .ok (.file (payloads.flatMap (Chunk.packed .video)) mode) := by
  obtain ⟨items, hencode, rfl⟩ := ChunkFile.exists_items_payloads video_isData fits
  rw [← hencode] at found
  obtain ⟨hsucceeds, -, hstat⟩ := transcode_remuxing found target
  exact ⟨hsucceeds, hstat⟩

end NormalForm

/-- **Remuxing is a normalisation.** A file is read for its video chunks. If it is read to its end,
the job succeeds and writes the concatenation of the payloads, each wrapped anew; the written file
is read to its end again, to the same payloads, and is a fixed point of the job. If reading fails
behind some chunks, so does the job, and it names their number. -/
theorem remuxing_normalises (setting : Cli.Setting) (input output : String) (bytes : Bytes)
    (mode : Nat)
    (found : setting.tree.stat input = .ok (.file bytes mode))
    (target : IsTarget setting.tree input output)
    (frames : List Frame) (ending : Except Error Unit) (last : Source)
    (reads : Source.ReadsTo setting.tree (.file { path := input, splitting := .chunks .video })
      frames ending last) :
    let remuxed := Cli.transcode setting (remuxing input output)
    (ending = .ok () → ∃ (items : List ChunkFile.Item) (chunks : List Bytes) (mode : Nat),
      bytes = ChunkFile.encode items ∧
      frames.map (fun frame => Chunk.unwrap .video frame.data) =
        (ChunkFile.payloads .video items).map .ok ∧
      (ChunkFile.payloads .video items).map (Chunk.wrap .video) = chunks.map .ok ∧
      (∃ summary, remuxed.1 = .ok summary) ∧
      setting.tree.AgreesBut [output, output ++ ".part"] remuxed.2 ∧
      remuxed.2.stat output = .ok (.file chunks.flatten mode) ∧
      (∃ frames' last', Source.ReadsTo remuxed.2
          (.file { path := output, splitting := .chunks .video }) frames' (.ok ()) last' ∧
        frames'.map (fun frame => Chunk.unwrap .video frame.data) =
          (ChunkFile.payloads .video items).map .ok) ∧
      ∀ again, IsTarget remuxed.2 output again →
        let repeated := Cli.transcode { setting with tree := remuxed.2 } (remuxing output again)
        (∃ summary, repeated.1 = .ok summary) ∧
        ∃ mode, repeated.2.stat again = .ok (.file chunks.flatten mode)) ∧
    ∀ e, ending = .error e → ∃ fault, e = .invalidData fault ∧
      remuxed.1 = .error (.pipeline (.data fault)
        (if frames.length = 0 then none else some frames.length)) := by
  intro remuxed
  obtain ⟨items, rest, rfl, stuck⟩ := ChunkFile.exists_items bytes
  -- the file is all items, or there is a cut behind them
  rcases stuck with rfl | ⟨fault, cut⟩
  · rw [List.append_nil] at found
    obtain ⟨rfl, hframes⟩ := readsTo_payloads found reads
    refine ⟨fun _ => ?_, fun e he => (nomatch he)⟩
    have hremuxed : (∃ summary, remuxed.1 = .ok summary) ∧
        setting.tree.AgreesBut [output, output ++ ".part"] remuxed.2 ∧
        ∃ mode, remuxed.2.stat output =
          .ok (.file ((ChunkFile.payloads .video items).flatMap (Chunk.packed .video)) mode) :=
      transcode_remuxing found target
    -- from here on only what the job has left behind matters
    clear_value remuxed
    obtain ⟨hsucceeds, agrees, mode', hstat⟩ := hremuxed
    have hfits : ∀ payload ∈ ChunkFile.payloads .video items, payload.length ≤ 67108864 :=
      fun payload h => ChunkFile.length_le_of_mem_payloads h
    have hchunks : ((ChunkFile.payloads .video items).map (Chunk.packed .video)).flatten =
        (ChunkFile.payloads .video items).flatMap (Chunk.packed .video) := List.flatMap_def.symm
    refine ⟨items, (ChunkFile.payloads .video items).map (Chunk.packed .video), mode',
      List.append_nil _, hframes, map_wrap hfits, hsucceeds, agrees, ?_,
      exists_readsTo_packed hfits hstat, ?_⟩
    · rw [hchunks]
      exact hstat
    · intro again target'
      rw [hchunks]
      have hfound : ({ setting with tree := remuxed.2 } : Cli.Setting).tree.stat output = _ := hstat
      exact transcode_remuxing_packed hfits hfound target'
  · obtain ⟨rfl, rfl⟩ := ChunkFile.readsTo_cut cut found reads
    refine ⟨fun hended => (nomatch hended), ?_⟩
    rintro _ ⟨⟩
    refine ⟨fault, rfl, ?_⟩
    rw [Frame.length_number, ← lastNumber_number]
    exact transcode_remuxing_of_cut cut found target

/-- An AVI file with a container, an odd chunk of video and a chunk of something else. -/
def clip : Cli.Setting where
  tree := { nodes := [(["in.avi"], .file (ChunkFile.encode ChunkFile.sampleItems) Node.newMode)] }
  tools := {}
  elapsed := ""
  occasion := { today := ⟨2026, 3, 19⟩, pack := id }

/-- Of the clip only the chunk of video is left, with a pad byte that is zero, and that stays so. -/
theorem remuxing_normalises_clip :
    let remuxed := Cli.transcode clip (remuxing "in.avi" "out.avi")
    let repeated := Cli.transcode { clip with tree := remuxed.2 } (remuxing "out.avi" "again.avi")
    ∃ mode mode', remuxed.2.stat "out.avi" =
        .ok (.file [0x30, 0x30, 0x64, 0x63, 3, 0, 0, 0, 0x52, 0x49, 0x46, 0] mode) ∧
      repeated.2.stat "again.avi" =
        .ok (.file [0x30, 0x30, 0x64, 0x63, 3, 0, 0, 0, 0x52, 0x49, 0x46, 0] mode') := by
  intro remuxed repeated
  have found : clip.tree.stat "in.avi" =
      .ok (.file (ChunkFile.encode ChunkFile.sampleItems) Node.newMode) := rfl
  have target : IsTarget clip.tree "in.avi" "out.avi" :=
    ⟨rfl, ⟨_, rfl⟩, ⟨_, rfl⟩, apart_of_fresh found rfl⟩
  obtain ⟨frames, ending, last, reads, -, -⟩ := Source.exists_readsTo_feed clip.tree
    (.file { path := "in.avi", splitting := .chunks .video })
  obtain ⟨accepted, -⟩ :=
    remuxing_normalises clip "in.avi" "out.avi" _ _ found target frames ending last reads
  obtain ⟨rfl, rfl, -⟩ := ChunkFile.readsTo_encode found reads
  obtain ⟨items, chunks, mode, -, hframes, hchunks, -, agrees, hstat, -, hagain⟩ := accepted rfl
  have hpayloads : ChunkFile.payloads .video items = [[0x52, 0x49, 0x46]] :=
    (List.map_inj_right fun _ _ => Except.ok.inj).1 hframes.symm
  rw [hpayloads] at hchunks
  obtain rfl : chunks = [[0x30, 0x30, 0x64, 0x63, 3, 0, 0, 0, 0x52, 0x49, 0x46, 0]] :=
    (List.map_inj_right fun _ _ => Except.ok.inj).1 hchunks.symm
  -- no directory has changed, so the other path can still be written
  have hpath : clip.tree.create "again.avi" = .ok _ := rfl
  have hpart : clip.tree.create ("again.avi" ++ ".part") = .ok _ := rfl
  have hout : remuxed.2.locate "out.avi" = .ok ["out.avi"] :=
    agrees.toSameDirectories.locate_eq rfl
  have hbeside : remuxed.2.locate ("again.avi" ++ ".part") = .ok ["again.avi.part"] :=
    agrees.toSameDirectories.locate_eq rfl
  have hapart : remuxed.2.locate "out.avi" ≠ remuxed.2.locate ("again.avi" ++ ".part") := by
    rw [hout, hbeside]
    simp
  obtain ⟨-, mode', hagain⟩ := hagain "again.avi"
    ⟨rfl, agrees.toSameDirectories.create hpath, agrees.toSameDirectories.create hpart, hapart⟩
  exact ⟨mode, mode', hstat, hagain⟩

end Divx

end Transcode
