import Transcode.Proofs.ChunkCodec
import Transcode.Proofs.Feed
/-!
# The grammar of chunk files

A chunk file is a list of items: headers of containers, and data chunks. `ChunkFile.Item` carries
the proofs that an item is well formed, so every list of items is a chunk file (`ChunkFile.encode`).
`ChunkFile.Cut` classifies the byte strings that begin with no item. Every byte string is a list of
items followed by nothing or by a cut (`ChunkFile.exists_items`), this division takes as many bytes
into items as any (`ChunkFile.length_encode_le`), and the reader finds exactly it
(`ChunkFile.frames_encode`).
-/

set_option autoImplicit false

namespace Transcode

namespace ChunkFile

/-- One item of a chunk file. -/
inductive Item where
  /-- The header of a container: any size, and four bytes for the form of what it holds. -/
  | container (header : ChunkHeader) (form : ChunkTag)
      (opens : header.tag = .riff ∨ header.tag = .list)
  /-- A data chunk: a payload of the size in its header, and one more byte if the size is odd. -/
  | chunk (header : ChunkHeader) (payload pad : Bytes)
      (isData : ¬(header.tag = .riff ∨ header.tag = .list))
      (fits : header.size.toNat ≤ 67108864)
      (whole : payload.length = header.size.toNat)
      (padded : pad.length = header.size.toNat % 2)

namespace Item

/-- The bytes of an item. -/
def toBytes : Item → Bytes
  | container header form _ => header.toBytes ++ form.toBytes
  | chunk header payload pad _ _ _ _ => header.toBytes ++ (payload ++ pad)

/-- The bytes of an item that is a data chunk with the given tag. -/
def frame? (tag : ChunkTag) : Item → Option Bytes
  | container _ _ _ => none
  | chunk header payload pad _ _ _ _ =>
      if header.tag = tag then some (header.toBytes ++ (payload ++ pad)) else none

/-- The result of reading an item in front of `rest`. -/
def found (rest : Bytes) : Item → ChunkItem
  | container _ _ _ => .container rest
  | chunk header payload pad _ _ _ _ => .chunk header (payload ++ pad) rest

end Item

/-- The bytes of a chunk file. -/
def encode (items : List Item) : Bytes :=
  items.flatMap Item.toBytes

/-- The data chunks with the given tag, in the order of the file. -/
def tagged (tag : ChunkTag) (items : List Item) : List Bytes :=
  items.filterMap (Item.frame? tag)

/-- Nonempty byte strings that begin with no item, with the fault reported for them. -/
inductive Cut : Bytes → DataFault → Prop where
  /-- The file ends in the middle of a header. -/
  | header (bytes : Bytes) (begun : bytes ≠ []) (short : bytes.length < 8) :
      Cut bytes (.headerCut bytes.length)
  /-- The file ends before the form of a container. -/
  | form (header : ChunkHeader) (rest : Bytes) (opens : header.tag = .riff ∨ header.tag = .list)
      (short : rest.length < 4) : Cut (header.toBytes ++ rest) .chunkCut
  /-- The file ends in the middle of a payload, or before its pad byte. -/
  | body (header : ChunkHeader) (rest : Bytes)
      (isData : ¬(header.tag = .riff ∨ header.tag = .list))
      (fits : header.size.toNat ≤ 67108864)
      (short : rest.length < header.size.toNat + header.size.toNat % 2) :
      Cut (header.toBytes ++ rest) .chunkCut
  /-- The size in the header is above the limit. -/
  | size (header : ChunkHeader) (rest : Bytes)
      (isData : ¬(header.tag = .riff ∨ header.tag = .list))
      (large : 67108864 < header.size.toNat) :
      Cut (header.toBytes ++ rest) (.chunkTooLarge header.tag.text header.size.toNat)

/-! ## Division into items -/

/-- A file that has eight bytes begins with a header. -/
theorem exists_header (bytes : Bytes) (enough : 8 ≤ bytes.length) :
    ∃ (header : ChunkHeader) (rest : Bytes), bytes = header.toBytes ++ rest := by
  match bytes, enough with
  | a :: b :: c :: d :: w :: x :: y :: z :: rest, _ =>
      exact ⟨_, rest, (ChunkHeader.toBytes_mk a b c d w x y z rest).symm⟩

/-- Four bytes can be taken as the form of a container. -/
theorem exists_form (bytes : Bytes) (enough : 4 ≤ bytes.length) :
    ∃ (form : ChunkTag) (rest : Bytes), bytes = form.toBytes ++ rest := by
  match bytes, enough with
  | a :: b :: c :: d :: rest, _ => exact ⟨⟨a, b, c, d⟩, rest, rfl⟩

/-- Bytes begin with an item, or they are a cut. -/
theorem exists_item_or_cut (bytes : Bytes) (begun : bytes ≠ []) :
    (∃ (item : Item) (rest : Bytes), bytes = item.toBytes ++ rest) ∨ ∃ fault, Cut bytes fault := by
  by_cases enough : 8 ≤ bytes.length
  · obtain ⟨header, rest, rfl⟩ := exists_header bytes enough
    by_cases opens : header.tag = .riff ∨ header.tag = .list
    · by_cases room : 4 ≤ rest.length
      · obtain ⟨form, rest, rfl⟩ := exists_form rest room
        exact .inl ⟨.container header form opens, rest, (List.append_assoc ..).symm⟩
      · exact .inr ⟨_, .form header rest opens (by omega)⟩
    · by_cases fits : header.size.toNat ≤ 67108864
      · by_cases room : header.size.toNat + header.size.toNat % 2 ≤ rest.length
        · refine .inl ⟨.chunk header (rest.take header.size.toNat)
            ((rest.drop header.size.toNat).take (header.size.toNat % 2)) opens fits ?_ ?_,
            (rest.drop header.size.toNat).drop (header.size.toNat % 2), ?_⟩
          · rw [List.length_take]
            omega
          · rw [List.length_take, List.length_drop]
            omega
          · simp only [Item.toBytes, List.append_assoc, List.take_append_drop]
        · exact .inr ⟨_, .body header rest opens fits (by omega)⟩
      · exact .inr ⟨_, .size header rest opens (by omega)⟩
  · exact .inr ⟨_, .header bytes begun (by omega)⟩

/-- An item takes at least the eight bytes of its header. -/
theorem Item.length_toBytes (item : Item) : 8 ≤ item.toBytes.length := by
  cases item with
  | container header form opens =>
      rw [Item.toBytes, List.length_append, ChunkHeader.length_toBytes]
      exact Nat.le_add_right 8 _
  | chunk header payload pad isData fits whole padded =>
      rw [Item.toBytes, List.length_append, ChunkHeader.length_toBytes]
      exact Nat.le_add_right 8 _

/-- Decomposition: every byte string is a list of items followed by nothing or by a cut. -/
theorem exists_items (bytes : Bytes) :
    ∃ items rest, bytes = encode items ++ rest ∧ (rest = [] ∨ ∃ fault, Cut rest fault) := by
  -- an item is not empty, so what stands behind it is shorter
  induction hn : bytes.length using Nat.strongRecOn generalizing bytes with
  | ind n ih =>
      by_cases begun : bytes = []
      · exact ⟨[], bytes, rfl, .inl begun⟩
      · rcases exists_item_or_cut bytes begun with ⟨item, rest, rfl⟩ | cut
        · have shorter : rest.length < n := by
            have := item.length_toBytes
            rw [List.length_append] at hn
            omega
          obtain ⟨items, last, rfl, hlast⟩ := ih _ shorter rest rfl
          refine ⟨item :: items, last, ?_, hlast⟩
          simp only [encode, List.flatMap_cons, List.append_assoc]
        · exact ⟨[], bytes, rfl, .inr cut⟩

/-! ## Results of the reader -/

theorem read_header_append (header : ChunkHeader) (rest : Bytes) :
    ChunkItem.read (header.toBytes ++ rest) = ChunkItem.ofHeader header rest := by
  rw [ChunkHeader.toBytes_append, ChunkItem.read, Word.ofBytes_toBytes]

theorem splitExact?_append {n : Nat} {front : Bytes} (h : front.length = n) (rest : Bytes) :
    splitExact? n (front ++ rest) = some (front, rest) := by
  rw [splitExact?, List.take_left' h, List.drop_left' h, if_pos h]

theorem splitExact?_short {n : Nat} {bytes : Bytes} (h : bytes.length < n) :
    splitExact? n bytes = none := by
  rw [splitExact?, if_neg]
  rw [List.length_take]
  omega

/-- Behind the header of a container stands what it holds. -/
theorem ofHeader_container {header : ChunkHeader}
    (opens : header.tag = .riff ∨ header.tag = .list) (form : ChunkTag) (rest : Bytes) :
    ChunkItem.ofHeader header (form.toBytes ++ rest) = .container rest := by
  unfold ChunkItem.ofHeader
  rw [if_pos opens]
  rfl

/-- Behind any other header within the limit stands the body of a chunk. -/
theorem ofHeader_data {header : ChunkHeader}
    (isData : ¬(header.tag = .riff ∨ header.tag = .list))
    (fits : header.size.toNat ≤ 67108864) (rest : Bytes) :
    ChunkItem.ofHeader header rest =
      match splitExact? (header.size.toNat + header.size.toNat % 2) rest with
      | some (body, after) => .chunk header body after
      | none => .bodyCut := by
  have within : ¬ChunkItem.sizeLimit < header.size.toNat := Nat.not_lt.2 fits
  unfold ChunkItem.ofHeader
  rw [if_neg isData, if_neg within]
  rfl

/-- The reader finds the item that stands in front. -/
theorem read_item_append (item : Item) (rest : Bytes) :
    ChunkItem.read (item.toBytes ++ rest) = item.found rest := by
  cases item with
  | container header form opens =>
      rw [Item.toBytes, List.append_assoc, read_header_append, ofHeader_container opens, Item.found]
  | chunk header payload pad isData fits whole padded =>
      have body : (payload ++ pad).length = header.size.toNat + header.size.toNat % 2 := by
        rw [List.length_append, whole, padded]
      rw [Item.toBytes, List.append_assoc, read_header_append, ofHeader_data isData fits,
        splitExact?_append body, Item.found]

/-- One turn of the reader, by the item in front. -/
theorem nextChunk_eq (tag : ChunkTag) (bytes : Bytes) (n : Nat) :
    nextChunk tag bytes n =
      match ChunkItem.read bytes with
      | .ended => ⟨.ok none, [], n⟩
      | .headerCut length => ⟨.error (.headerCut length), [], n + length⟩
      | .bodyCut => ⟨.error .chunkCut, [], n + 8⟩
      | .oversized header rest =>
          ⟨.error (.chunkTooLarge header.tag.text header.size.toNat), rest, n + 8⟩
      | .container rest => nextChunk tag rest (n + 8 + 4)
      | .chunk header body rest =>
          if header.tag = tag then
            ⟨.ok (some (header.toBytes ++ body)), rest, n + 8 + body.length⟩
          else nextChunk tag rest (n + 8 + body.length) := by
  conv => lhs; rw [nextChunk]
  split <;> simp_all [ChunkHeader.length]

/-- Case distinction for reading at a cut, with its fault. -/
theorem read_cut {bytes : Bytes} {fault : DataFault} (cut : Cut bytes fault) :
    (∃ n, ChunkItem.read bytes = .headerCut n ∧ fault = .headerCut n) ∨
      (ChunkItem.read bytes = .bodyCut ∧ fault = .chunkCut) ∨
      ∃ header rest, ChunkItem.read bytes = .oversized header rest ∧
        fault = .chunkTooLarge header.tag.text header.size.toNat := by
  cases cut with
  | header _ begun short =>
      refine .inl ⟨bytes.length, ?_, rfl⟩
      match bytes, begun, short with
      | [_], _, _ | [_, _], _, _ | [_, _, _], _, _ | [_, _, _, _], _, _ | [_, _, _, _, _], _, _
      | [_, _, _, _, _, _], _, _ | [_, _, _, _, _, _, _], _, _ => rfl
  | form header rest opens short =>
      refine .inr (.inl ⟨?_, rfl⟩)
      rw [read_header_append]
      unfold ChunkItem.ofHeader
      rw [if_pos opens]
      match rest, short with
      | [], _ | [_], _ | [_, _], _ | [_, _, _], _ => rfl
  | body header rest isData fits short =>
      refine .inr (.inl ⟨?_, rfl⟩)
      rw [read_header_append, ofHeader_data isData fits, splitExact?_short short]
  | size header rest isData large =>
      refine .inr (.inr ⟨header, rest, ?_, rfl⟩)
      have above : ChunkItem.sizeLimit < header.size.toNat := large
      rw [read_header_append]
      unfold ChunkItem.ofHeader
      rw [if_neg isData, if_pos above]

/-- The reader stops at a cut, with the fault that belongs to it. -/
theorem nextChunk_cut {bytes : Bytes} {fault : DataFault} (cut : Cut bytes fault) (tag : ChunkTag)
    (n : Nat) : (nextChunk tag bytes n).result = .error fault := by
  rcases read_cut cut with ⟨length, found, rfl⟩ | ⟨found, rfl⟩ | ⟨header, rest, found, rfl⟩ <;>
    rw [nextChunk_eq, found]

/-- A cut does not begin with an item. -/
theorem not_cut_item (item : Item) (rest : Bytes) (fault : DataFault) :
    ¬Cut (item.toBytes ++ rest) fault := by
  intro cut
  have found := read_item_append item rest
  rcases read_cut cut with ⟨length, hread, -⟩ | ⟨hread, -⟩ | ⟨header, after, hread, -⟩ <;>
    rw [hread] at found <;> cases item <;> cases found

/-- The bytes already counted are only carried along. -/
theorem nextChunk_add (tag : ChunkTag) (bytes : Bytes) (n k : Nat) :
    nextChunk tag bytes (k + n) =
      ⟨(nextChunk tag bytes n).result, (nextChunk tag bytes n).rest,
        k + (nextChunk tag bytes n).read⟩ := by
  induction bytes, n using nextChunk.induct tag with
  | case1 bytes n heq => simp only [nextChunk_eq tag bytes, heq]
  | case2 bytes n length heq => simp only [nextChunk_eq tag bytes, heq, Nat.add_assoc]
  | case3 bytes n heq => simp only [nextChunk_eq tag bytes, heq, Nat.add_assoc]
  | case4 bytes n header rest heq => simp only [nextChunk_eq tag bytes, heq, Nat.add_assoc]
  | case5 bytes n rest heq ih =>
      simp only [nextChunk_eq tag bytes, heq]
      rw [show k + n + 8 + 4 = k + (n + 8 + 4) by omega]
      exact ih
  | case6 bytes n header body rest heq htag =>
      simp only [nextChunk_eq tag bytes, heq, htag, if_true, Nat.add_assoc]
  | case7 bytes n header body rest heq read htag ih =>
      simp only [nextChunk_eq tag bytes, heq, htag, if_false]
      rw [show k + n + 8 + body.length = k + (n + 8 + body.length) by omega]
      exact ih

/-- A data chunk with the tag is the next piece. -/
theorem split_tagged {tag : ChunkTag} {item : Item} {data : Bytes}
    (h : item.frame? tag = some data) (rest : Bytes) :
    (Splitting.chunks tag).split (item.toBytes ++ rest) =
      ⟨.ok (some data), rest, item.toBytes.length⟩ := by
  cases item with
  | container header form opens => cases h
  | chunk header payload pad isData fits whole padded =>
      simp only [Item.frame?, Option.ite_none_right_eq_some, Option.some.injEq] at h
      obtain ⟨htag, rfl⟩ := h
      rw [Splitting.split, nextChunk_eq, read_item_append]
      simp [Item.found, Item.toBytes, htag, Nat.add_comm]

/-- Every other item is passed over, and its bytes count as read. -/
theorem split_skipped {tag : ChunkTag} {item : Item} (h : item.frame? tag = none) (rest : Bytes) :
    (Splitting.chunks tag).split (item.toBytes ++ rest) =
      ⟨((Splitting.chunks tag).split rest).result, ((Splitting.chunks tag).split rest).rest,
        item.toBytes.length + ((Splitting.chunks tag).split rest).read⟩ := by
  rw [Splitting.split, Splitting.split, ← nextChunk_add, nextChunk_eq, read_item_append]
  cases item with
  | container header form opens => simp [Item.found, Item.toBytes, ChunkTag.toBytes]
  | chunk header payload pad isData fits whole padded =>
      have htag : header.tag ≠ tag := by simpa [Item.frame?] using h
      simp [Item.found, Item.toBytes, htag, Nat.add_comm]

theorem frames_tagged {tag : ChunkTag} {item : Item} {data : Bytes}
    (h : item.frame? tag = some data) (rest : Bytes) (next : Nat) :
    (Splitting.chunks tag).frames next (item.toBytes ++ rest) =
      (.ok ⟨next, data⟩ :: ((Splitting.chunks tag).frames (next + 1) rest).1,
        item.toBytes.length + ((Splitting.chunks tag).frames (next + 1) rest).2) := by
  have piece := split_tagged h rest
  have result : ((Splitting.chunks tag).split (item.toBytes ++ rest)).result = .ok (some data) := by
    rw [piece]
  rw [Splitting.frames_of_some next result, piece]

theorem frames_skipped {tag : ChunkTag} {item : Item} (h : item.frame? tag = none) (rest : Bytes)
    (next : Nat) :
    (Splitting.chunks tag).frames next (item.toBytes ++ rest) =
      (((Splitting.chunks tag).frames next rest).1,
        item.toBytes.length + ((Splitting.chunks tag).frames next rest).2) := by
  have piece := split_skipped h rest
  have same : ((Splitting.chunks tag).split (item.toBytes ++ rest)).result =
      ((Splitting.chunks tag).split rest).result := by
    rw [piece]
  cases hresult : ((Splitting.chunks tag).split rest).result with
  | error fault =>
      rw [Splitting.frames_of_fault next (same.trans hresult), piece,
        Splitting.frames_of_fault next hresult]
  | ok result =>
      cases result with
      | none =>
          rw [Splitting.frames_of_ended next (same.trans hresult), piece,
            Splitting.frames_of_ended next hresult]
      | some data =>
          rw [Splitting.frames_of_some next (same.trans hresult), piece,
            Splitting.frames_of_some next hresult, Nat.add_assoc]

/-- The frames of encoded items are their data chunks with the tag; reading continues behind them.
-/
theorem frames_encode (tag : ChunkTag) (items : List Item) (rest : Bytes) (next : Nat) :
    (Splitting.chunks tag).frames next (encode items ++ rest) =
      ((Frame.number next (tagged tag items)).map .ok ++
          ((Splitting.chunks tag).frames (next + (tagged tag items).length) rest).1,
        (encode items).length +
          ((Splitting.chunks tag).frames (next + (tagged tag items).length) rest).2) := by
  induction items generalizing next with
  | nil => simp [encode, tagged, Frame.number]
  | cons item items ih =>
      have front : encode (item :: items) ++ rest = item.toBytes ++ (encode items ++ rest) := by
        simp only [encode, List.flatMap_cons, List.append_assoc]
      have size : (encode (item :: items)).length = item.toBytes.length +
          (encode items).length := by
        simp only [encode, List.flatMap_cons, List.length_append]
      rw [front, size]
      cases hframe : item.frame? tag with
      | none =>
          have same : tagged tag (item :: items) = tagged tag items :=
            List.filterMap_cons_none hframe
          rw [frames_skipped hframe, ih, same, Nat.add_assoc]
      | some data =>
          have more : tagged tag (item :: items) = data :: tagged tag items :=
            List.filterMap_cons_some hframe
          rw [frames_tagged hframe, ih, more]
          simp only [Frame.number, List.map_cons, List.cons_append, List.length_cons,
            Nat.add_assoc, Nat.add_comm 1]

/-- Maximality: items that extend to the end of the file or to a cut are the longest list of items
at its front. -/
theorem length_encode_le {items items' : List Item} {rest rest' : Bytes}
    (stuck : rest = [] ∨ ∃ fault, Cut rest fault)
    (same : encode items ++ rest = encode items' ++ rest') :
    (encode items').length ≤ (encode items).length := by
  induction items' generalizing items with
  | nil => exact Nat.zero_le _
  | cons item' items' ih =>
      have front' : encode (item' :: items') = item'.toBytes ++ encode items' := rfl
      rw [front', List.append_assoc] at same
      cases items with
      | nil =>
          have start : rest = item'.toBytes ++ (encode items' ++ rest') := same
          rcases stuck with rfl | ⟨fault, cut⟩
          · have := item'.length_toBytes
            have := congrArg List.length start
            simp only [List.length_nil, List.length_append] at this
            omega
          · rw [start] at cut
            exact absurd cut (not_cut_item item' _ fault)
      | cons item items =>
          have front : encode (item :: items) = item.toBytes ++ encode items := rfl
          rw [front, List.append_assoc] at same
          -- the reader finds one item in front, so both rows go on behind the same bytes
          have behind : encode items ++ rest = encode items' ++ rest' := by
            have found := read_item_append item (encode items ++ rest)
            rw [same, read_item_append] at found
            cases item <;> cases item' <;> simp_all [Item.found]
          have shorter := ih behind
          have lengths := congrArg List.length same
          have lengths' := congrArg List.length behind
          simp only [front, front', List.length_append] at lengths lengths' ⊢
          omega

/-- Only whole items: then no division of the file ends at a cut. -/
theorem not_exists_encode {items : List Item} {rest : Bytes} {fault : DataFault}
    (cut : Cut rest fault) : ¬∃ items', encode items ++ rest = encode items' := by
  rintro ⟨items', same⟩
  have divided : encode items ++ rest = encode items' ++ [] := by rw [same, List.append_nil]
  have longest := length_encode_le (.inr ⟨fault, cut⟩) divided
  have lengths := congrArg List.length same
  have begun : rest ≠ [] := by
    rintro rfl
    rcases read_cut cut with ⟨length, found, -⟩ | ⟨found, -⟩ | ⟨header, after, found, -⟩ <;>
      cases found
  have := List.length_pos_iff.2 begun
  rw [List.length_append] at lengths
  omega

/-! ## Reading a chunk file -/

theorem frames_end (tag : ChunkTag) (next : Nat) :
    (Splitting.chunks tag).frames next [] = ([], 0) := by
  have piece : (Splitting.chunks tag).split [] = ⟨.ok none, [], 0⟩ := by
    rw [Splitting.split, nextChunk_eq]
    rfl
  rw [Splitting.frames_of_ended next (by rw [piece]), piece]

theorem frames_cut {bytes : Bytes} {fault : DataFault} (cut : Cut bytes fault) (tag : ChunkTag)
    (next : Nat) :
    ((Splitting.chunks tag).frames next bytes).1 = [.error (.invalidData fault)] := by
  have result : ((Splitting.chunks tag).split bytes).result = .error fault :=
    nextChunk_cut cut tag 0
  rw [Splitting.frames_of_fault next result]

/-- The frames of a data chunk with the tag carry a chunk that can be unwrapped. -/
theorem unwrap_of_mem_tagged {tag : ChunkTag} {items : List Item} {data : Bytes}
    (h : data ∈ tagged tag items) : ∃ payload, Chunk.unwrap tag data = .ok payload := by
  obtain ⟨item, -, hframe⟩ := List.mem_filterMap.1 h
  cases item with
  | container header form opens => cases hframe
  | chunk header payload pad isData fits whole padded =>
      simp only [Item.frame?, Option.ite_none_right_eq_some, Option.some.injEq] at hframe
      obtain ⟨rfl, rfl⟩ := hframe
      exact ⟨payload, Chunk.unwrap_parts whole padded⟩

theorem data_mem_of_mem_number {frame : Frame} {start : Nat} {payloads : List Bytes}
    (h : frame ∈ Frame.number start payloads) : frame.data ∈ payloads := by
  induction payloads generalizing start with
  | nil => cases h
  | cons data rest ih =>
      rcases List.mem_cons.1 h with rfl | h
      · exact List.mem_cons_self
      · exact List.mem_cons_of_mem _ (ih h)

section Reading

variable {t : FileTree} {path : String} {mode : Nat} {tag : ChunkTag} {frames : List Frame}
  {ending : Except Error Unit} {last : Source}

/-- Encoded items are read without a failure, to the data chunks with the tag. -/
theorem readsTo_encode {items : List Item} (found : t.stat path = .ok (.file (encode items) mode))
    (h : Source.ReadsTo t (.file { path, splitting := .chunks tag }) frames ending last) :
    frames = Frame.number 1 (tagged tag items) ∧ ending = .ok () ∧
      last.bytesRead = (encode items).length := by
  obtain ⟨messages, read⟩ := h.feed_eq
  have whole := frames_encode tag items [] 1
  rw [List.append_nil, frames_end] at whole
  rw [Source.feed_file _ found] at messages read
  simp only [whole, List.append_nil, Nat.add_zero] at messages read
  have same : frames.map .ok ++ Source.endMessages ending =
      (Frame.number 1 (tagged tag items)).map .ok ++ Source.endMessages (.ok ()) := by
    rw [← messages, Source.endMessages, List.append_nil]
  obtain ⟨rfl, rfl⟩ := Source.messages_injective same
  exact ⟨rfl, rfl, read.symm⟩

/-- Encoded items followed by a cut are read to the data chunks with the tag, and then with the
fault. -/
theorem readsTo_cut {items : List Item} {rest : Bytes} {fault : DataFault} (cut : Cut rest fault)
    (found : t.stat path = .ok (.file (encode items ++ rest) mode))
    (h : Source.ReadsTo t (.file { path, splitting := .chunks tag }) frames ending last) :
    frames = Frame.number 1 (tagged tag items) ∧ ending = .error (.invalidData fault) := by
  obtain ⟨messages, -⟩ := h.feed_eq
  rw [Source.feed_file _ found] at messages
  simp only [frames_encode, frames_cut cut] at messages
  have same : frames.map .ok ++ Source.endMessages ending =
      (Frame.number 1 (tagged tag items)).map .ok ++
        Source.endMessages (.error (.invalidData fault)) := by
    rw [← messages, Source.endMessages]
  exact Source.messages_injective same

end Reading

/-- **A file is read to its end without a failure if and only if it is a list of items.** The frames
are then its data chunks with the tag, numbered from one, and all bytes count as read. Any other
file gives the frames of its longest list of items, and then the fault of the cut behind it. Every
frame can be unwrapped. -/
theorem readsTo_grammar (t : FileTree) (path : String) (bytes : Bytes) (mode : Nat)
    (tag : ChunkTag) (found : t.stat path = .ok (.file bytes mode)) :
    (∃ frames ending last,
      Source.ReadsTo t (.file { path, splitting := .chunks tag }) frames ending last) ∧
    ∀ frames ending last,
      Source.ReadsTo t (.file { path, splitting := .chunks tag }) frames ending last →
      (ending = .ok () ↔ ∃ items, bytes = encode items) ∧
      (∀ items, bytes = encode items →
        frames = Frame.number 1 (tagged tag items) ∧ last.bytesRead = bytes.length) ∧
      ((¬∃ items, bytes = encode items) → ∃ items rest fault,
        bytes = encode items ++ rest ∧
        (∀ items' rest', bytes = encode items' ++ rest' →
          (encode items').length ≤ (encode items).length) ∧
        frames = Frame.number 1 (tagged tag items) ∧
        Cut rest fault ∧ ending = .error (.invalidData fault)) ∧
      ∀ frame ∈ frames, ∃ payload, Chunk.unwrap tag frame.data = .ok payload := by
  constructor
  · obtain ⟨frames, ending, last, reads, -, -⟩ :=
      Source.exists_readsTo_feed t (.file { path, splitting := .chunks tag })
    exact ⟨frames, ending, last, reads⟩
  intro frames ending last reads
  obtain ⟨items, rest, rfl, stuck⟩ := exists_items bytes
  -- behind the items the reader is at the end of the file or at a cut
  rcases stuck with rfl | ⟨fault, cut⟩
  · rw [List.append_nil] at found ⊢
    obtain ⟨rfl, rfl, read⟩ := readsTo_encode found reads
    refine ⟨⟨fun _ => ⟨items, rfl⟩, fun _ => rfl⟩, ?_, ?_, ?_⟩
    · intro items' same
      rw [same] at found
      obtain ⟨hframes, -, hread⟩ := readsTo_encode found reads
      exact ⟨hframes, by rw [hread, same]⟩
    · intro hother
      exact absurd ⟨items, rfl⟩ hother
    · intro frame hframe
      exact unwrap_of_mem_tagged (data_mem_of_mem_number hframe)
  · obtain ⟨rfl, rfl⟩ := readsTo_cut cut found reads
    have hother : ¬∃ items', encode items ++ rest = encode items' := not_exists_encode cut
    refine ⟨⟨fun done => (nomatch done), fun hitems => absurd hitems hother⟩, ?_, ?_, ?_⟩
    · intro items' same
      exact absurd ⟨items', same⟩ hother
    · intro _
      refine ⟨items, rest, fault, rfl, ?_, rfl, cut, rfl⟩
      intro items' rest' same
      exact length_encode_le (.inr ⟨fault, cut⟩) same
    · intro frame hframe
      exact unwrap_of_mem_tagged (data_mem_of_mem_number hframe)

/-- A container of any size, a chunk whose payload looks like a header and whose pad byte is not
zero, and a chunk with another tag and no payload. -/
def sampleItems : List Item :=
  [.container ⟨.riff, 0xFFFFFFFF⟩ ⟨0x41, 0x56, 0x49, 0x20⟩ (.inl rfl),
    .chunk ⟨.video, 3⟩ [0x52, 0x49, 0x46] [0x07] (by decide) (by decide) rfl rfl,
    .chunk ⟨⟨0x4A, 0x55, 0x4E, 0x4B⟩, 0⟩ [] [] (by decide) (by decide) rfl rfl]

/-- A file with the sample in it. -/
def sampleTree : FileTree :=
  { nodes := [(["clip.avi"], .file (encode sampleItems) Node.newMode)] }

/-- The sample gives one frame, the chunk with its header and its pad byte, after 32 bytes. -/
theorem readsTo_sample :
    sampleTree.stat "clip.avi" = .ok (.file (encode sampleItems) Node.newMode) ∧
    ∃ last, Source.ReadsTo sampleTree (.file { path := "clip.avi", splitting := .chunks .video })
        [⟨1, [0x30, 0x30, 0x64, 0x63, 3, 0, 0, 0, 0x52, 0x49, 0x46, 0x07]⟩] (.ok ()) last ∧
      last.bytesRead = 32 := by
  have found : sampleTree.stat "clip.avi" = .ok (.file (encode sampleItems) Node.newMode) := rfl
  obtain ⟨⟨frames, ending, last, reads⟩, all⟩ := readsTo_grammar sampleTree "clip.avi"
    (encode sampleItems) Node.newMode .video found
  obtain ⟨accepted, whole, -, -⟩ := all frames ending last reads
  obtain ⟨hframes, hread⟩ := whole sampleItems rfl
  rw [accepted.2 ⟨sampleItems, rfl⟩, hframes] at reads
  exact ⟨found, last, reads, hread⟩

end ChunkFile

end Transcode
