import Transcode.Chunk
/-!
# Headers and payloads as bytes

A word and its four bytes determine each other (`Word.ofBytes_toBytes`, `Word.toBytes_ofBytes`), and
so do a header and its eight bytes. A byte string that begins with a header is taken apart by
`ChunkHeader.toBytes_append`, and `Chunk.unwrap_parts` recovers the payload between a header of its
size and a pad.

`Chunk.Encloses` is the relation of a payload to the bytes that enclose it, in terms of the
little-endian value of the size field (`Word.littleEndian`). Taking a payload out succeeds for
exactly these bytes (`Chunk.unwrap_eq_ok_iff`) and is refused for all others, and a wrapped payload
is one of them with the length rounded up to an even number (`Chunk.wrap_unwrap_parse`).
-/

set_option autoImplicit false

namespace Transcode

namespace Word

/-- A word is read back from its bytes. -/
theorem ofBytes_toBytes (n : UInt32) :
    ofBytes (UInt8.ofNat n.toNat) (UInt8.ofNat (n.toNat / 256)) (UInt8.ofNat (n.toNat / 65536))
      (UInt8.ofNat (n.toNat / 16777216)) = n := by
  have bound := n.toNat_lt
  apply UInt32.toNat_inj.1
  simp only [ofBytes, UInt32.toNat_ofNat', UInt8.toNat_ofNat']
  omega

/-- Four bytes are the bytes of the word they make. -/
theorem toBytes_ofBytes (w x y z : UInt8) : toBytes (ofBytes w x y z) = [w, x, y, z] := by
  have hw := w.toNat_lt
  have hx := x.toNat_lt
  have hy := y.toNat_lt
  have hz := z.toNat_lt
  have value : (ofBytes w x y z).toNat =
      w.toNat + 256 * (x.toNat + 256 * (y.toNat + 256 * z.toNat)) := by
    rw [ofBytes, UInt32.toNat_ofNat']
    omega
  simp only [toBytes, value, List.cons.injEq, and_true]
  refine ⟨?_, ?_, ?_, ?_⟩ <;> apply UInt8.toNat_inj.1 <;> rw [UInt8.toNat_ofNat'] <;> omega

/-- The number that bytes write out to the base 256, with the least significant byte first. -/
def littleEndian : Bytes → Nat
  | [] => 0
  | byte :: rest => byte.toNat + 256 * littleEndian rest

/-- The bytes of a word write it out. -/
theorem littleEndian_toBytes (n : UInt32) : littleEndian (toBytes n) = n.toNat := by
  have bound := n.toNat_lt
  simp only [toBytes, littleEndian, UInt8.toNat_ofNat']
  omega

/-- Four bytes are the bytes of a word. -/
theorem exists_eq_toBytes {bytes : Bytes} (four : bytes.length = 4) : ∃ n, bytes = toBytes n := by
  match bytes, four with
  | [w, x, y, z], _ => exact ⟨ofBytes w x y z, (toBytes_ofBytes w x y z).symm⟩

end Word

namespace ChunkHeader

@[simp] theorem length_toBytes (header : ChunkHeader) : header.toBytes.length = 8 := rfl

/-- The bytes of a header, one by one, in front of what follows it. -/
theorem toBytes_append (header : ChunkHeader) (rest : Bytes) :
    header.toBytes ++ rest =
      header.tag.a :: header.tag.b :: header.tag.c :: header.tag.d ::
        UInt8.ofNat header.size.toNat :: UInt8.ofNat (header.size.toNat / 256) ::
        UInt8.ofNat (header.size.toNat / 65536) :: UInt8.ofNat (header.size.toNat / 16777216) ::
        rest := rfl

/-- Eight bytes are the bytes of the header they make. -/
theorem toBytes_mk (a b c d w x y z : UInt8) (rest : Bytes) :
    (⟨⟨a, b, c, d⟩, Word.ofBytes w x y z⟩ : ChunkHeader).toBytes ++ rest =
      a :: b :: c :: d :: w :: x :: y :: z :: rest := by
  rw [toBytes, ChunkTag.toBytes, Word.toBytes_ofBytes]
  rfl

/-- A header is read back from the front of a byte string. -/
theorem parse_toBytes_append (header : ChunkHeader) (rest : Bytes) :
    parse (header.toBytes ++ rest) = .ok header := by
  rw [toBytes_append, parse, Word.ofBytes_toBytes]

/-- Eight bytes or more begin with the bytes of the header that is read, and fewer are invalid. -/
theorem parse_cases (bytes : Bytes) :
    (∃ header, parse bytes = .ok header ∧ bytes = header.toBytes ++ bytes.drop length) ∨
      bytes.length < 8 ∧ ∃ fault, parse bytes = .error (.invalidData fault) := by
  rcases Nat.lt_or_ge bytes.length 8 with short | long
  · refine .inr ⟨short, .headerIncomplete bytes.length, ?_⟩
    rw [parse]
    rintro a b c d w x y z rest rfl
    simp only [List.length_cons] at short
    omega
  · match bytes, long with
    | a :: b :: c :: d :: w :: x :: y :: z :: rest, _ =>
      exact .inl ⟨_, rfl, (toBytes_mk a b c d w x y z rest).symm⟩

/-- The header at the front of a byte string stands there with its bytes. -/
theorem eq_append_of_parse {bytes : Bytes} {header : ChunkHeader}
    (parsed : parse bytes = .ok header) : bytes = header.toBytes ++ bytes.drop length := by
  rcases parse_cases bytes with ⟨read, found, parts⟩ | ⟨_, _, refused⟩
  · cases found.symm.trans parsed
    exact parts
  · cases refused.symm.trans parsed

end ChunkHeader

namespace Chunk

/-- A payload between a header of its size and the pad that belongs to it is taken out whole. -/
theorem unwrap_parts {header : ChunkHeader} {payload pad : Bytes}
    (size : payload.length = header.size.toNat) (padded : pad.length = header.padding) :
    unwrap header.tag (header.toBytes ++ (payload ++ pad)) = .ok payload := by
  have body : (header.toBytes ++ (payload ++ pad)).drop ChunkHeader.length = payload ++ pad :=
    List.drop_left' header.length_toBytes
  have whole : (payload ++ pad).length = header.size.toNat + header.padding := by
    rw [List.length_append, size, padded]
  rw [unwrap, ChunkHeader.parse_toBytes_append]
  simp only [body, whole, ne_eq, not_true_eq_false, ↓reduceIte, or_true]
  rw [← size, List.take_left]

/-- `data` is the tag, four bytes that write out the size of the payload, the payload, and then
nothing or, if the size is odd, one byte of any value. -/
def Encloses (tag : ChunkTag) (payload data : Bytes) : Prop :=
  ∃ size pad : Bytes, data = tag.toBytes ++ size ++ payload ++ pad ∧ size.length = 4 ∧
    Word.littleEndian size = payload.length ∧
    (pad = [] ∨ payload.length % 2 = 1 ∧ ∃ last, pad = [last])

/-- A payload is enclosed exactly between a header of its size and at most the pad that belongs to
it. -/
theorem encloses_iff {tag : ChunkTag} {payload data : Bytes} :
    Encloses tag payload data ↔
      ∃ header pad, data = ChunkHeader.toBytes header ++ (payload ++ pad) ∧
      header.tag = tag ∧ payload.length = header.size.toNat ∧
      (pad.length = 0 ∨ pad.length = header.padding) := by
  constructor
  · rintro ⟨size, pad, rfl, four, written, ends⟩
    obtain ⟨word, rfl⟩ := Word.exists_eq_toBytes four
    rw [Word.littleEndian_toBytes] at written
    refine ⟨⟨tag, word⟩, pad, by simp [ChunkHeader.toBytes], rfl, written.symm, ?_⟩
    rw [ChunkHeader.padding, written]
    rcases ends with rfl | ⟨odd, last, rfl⟩
    · exact .inl rfl
    · exact .inr odd.symm
  · rintro ⟨header, pad, rfl, rfl, sized, ends⟩
    refine ⟨Word.toBytes header.size, pad, by simp [ChunkHeader.toBytes], rfl, ?_, ?_⟩
    · rw [Word.littleEndian_toBytes, sized]
    · rw [ChunkHeader.padding, ← sized] at ends
      rcases Nat.mod_two_eq_zero_or_one payload.length with even | odd
      · exact .inl (List.eq_nil_of_length_eq_zero (by omega))
      · rcases ends with none | one
        · exact .inl (List.eq_nil_of_length_eq_zero none)
        · exact .inr ⟨odd, List.length_eq_one_iff.1 (one.trans odd)⟩

/-- Unwrapping inverts enclosure. -/
theorem unwrap_of_encloses {tag : ChunkTag} {payload data : Bytes}
    (encloses : Encloses tag payload data) : unwrap tag data = .ok payload := by
  obtain ⟨header, pad, rfl, rfl, sized, ends⟩ := encloses_iff.1 encloses
  rcases ends with none | padded
  · -- Without the pad byte the payload is all that stands behind the header.
    rw [List.eq_nil_of_length_eq_zero none, List.append_nil, unwrap,
      ChunkHeader.parse_toBytes_append]
    have body : (header.toBytes ++ payload).drop ChunkHeader.length = payload :=
      List.drop_left' header.length_toBytes
    simp only [body, sized, ne_eq, not_true_eq_false, ↓reduceIte, true_or]
    rw [← sized, List.take_length]
  · exact unwrap_parts sized padded

/-- A payload is taken out only from behind a header that gives its size, where no byte of the size
is missing and at most the pad is left over; all other bytes are invalid. -/
theorem unwrap_cases (tag : ChunkTag) (data : Bytes) :
    (∃ header, ChunkHeader.parse data = .ok header ∧ header.tag = tag ∧
      8 + header.size.toNat ≤ data.length ∧
      data.length ≤ 8 + header.size.toNat + header.padding ∧
      unwrap tag data = .ok ((data.drop ChunkHeader.length).take header.size.toNat)) ∨
    ∃ fault, unwrap tag data = .error (.invalidData fault) := by
  rcases ChunkHeader.parse_cases data with ⟨header, parsed, parts⟩ | ⟨_, fault, refused⟩
  · have whole := congrArg List.length parts
    rw [List.length_append, ChunkHeader.length_toBytes] at whole
    simp only [unwrap, parsed]
    by_cases same : header.tag = tag
    · rw [if_neg (not_not_intro same)]
      by_cases sized : (data.drop ChunkHeader.length).length = header.size.toNat ∨
          (data.drop ChunkHeader.length).length = header.size.toNat + header.padding
      · rw [if_pos sized]
        exact .inl ⟨header, rfl, same, by omega, by omega, rfl⟩
      · rw [if_neg sized]
        exact .inr ⟨_, rfl⟩
    · rw [if_pos same]
      exact .inr ⟨_, rfl⟩
  · simp only [unwrap, refused]
    exact .inr ⟨fault, rfl⟩

/-- Exactly what is enclosed in bytes is taken out of them. -/
theorem unwrap_eq_ok_iff {tag : ChunkTag} {payload data : Bytes} :
    unwrap tag data = .ok payload ↔ Encloses tag payload data := by
  constructor
  · intro taken
    rcases unwrap_cases tag data with ⟨header, parsed, rfl, inside, atMost, found⟩ | ⟨_, refused⟩
    · cases found.symm.trans taken
      have padding : header.padding < 2 := Nat.mod_lt _ Nat.two_pos
      have parts := ChunkHeader.eq_append_of_parse parsed
      have sizes := congrArg List.length parts
      rw [List.length_append, ChunkHeader.length_toBytes] at sizes
      apply encloses_iff.2
      refine ⟨header, (data.drop ChunkHeader.length).drop header.size.toNat, ?_, rfl, ?_, ?_⟩
      · rw [List.take_append_drop]
        exact parts
      · rw [List.length_take]
        omega
      · rw [List.length_drop]
        omega
    · cases refused.symm.trans taken
  · exact unwrap_of_encloses

/-- A wrapped payload is enclosed in the bytes made, whose length is rounded up to an even number.
-/
theorem encloses_of_wrap {tag : ChunkTag} {payload chunk : Bytes}
    (wrapped : wrap tag payload = .ok chunk) :
    chunk.length = 8 + payload.length + payload.length % 2 ∧ Encloses tag payload chunk := by
  rw [wrap] at wrapped
  split at wrapped
  next fits =>
    cases wrapped
    have sized : (UInt32.ofNat payload.length).toNat = payload.length :=
      UInt32.toNat_ofNat_of_lt' fits
    constructor
    · simp only [List.length_append, ChunkHeader.length_toBytes, List.length_replicate,
        ChunkHeader.padding, sized]
    · exact encloses_iff.2 ⟨_, _, List.append_assoc _ _ _, rfl, sized.symm,
        .inr List.length_replicate⟩
  next => cases wrapped

/-- **A payload and its chunk determine each other.** Wrapping succeeds exactly for payloads of less
than `2 ^ 32` bytes and makes an even number of bytes, out of which the payload is taken again. A
payload is taken out of exactly the bytes that enclose it, by a cut that stays inside them, and all
other bytes are invalid. A header is read back from its bytes, and eight bytes or more begin with
the bytes of the header that is read. -/
theorem wrap_unwrap_parse (tag : ChunkTag) (payload data : Bytes) (header : ChunkHeader) :
    ((∃ chunk, wrap tag payload = .ok chunk) ↔ payload.length < 4294967296) ∧
    (∀ chunk, wrap tag payload = .ok chunk →
      chunk.length = 8 + payload.length + payload.length % 2 ∧ chunk.length % 2 = 0 ∧
        unwrap tag chunk = .ok payload) ∧
    (unwrap tag data = .ok payload ↔ Encloses tag payload data) ∧
    ((∃ read, ChunkHeader.parse data = .ok read ∧ 8 + read.size.toNat ≤ data.length ∧
        unwrap tag data = .ok ((data.drop ChunkHeader.length).take read.size.toNat)) ∨
      ∃ fault, unwrap tag data = .error (.invalidData fault)) ∧
    ChunkHeader.parse header.toBytes = .ok header ∧
    (8 ≤ data.length →
      ∃ read, ChunkHeader.parse data = .ok read ∧ read.toBytes = data.take 8) := by
  refine ⟨⟨?_, ?_⟩, ?_, unwrap_eq_ok_iff, ?_, ?_, ?_⟩
  · rintro ⟨chunk, wrapped⟩
    rw [wrap] at wrapped
    split at wrapped
    next fits => exact fits
    next => cases wrapped
  · intro fits
    exact ⟨_, if_pos fits⟩
  · intro chunk wrapped
    obtain ⟨long, encloses⟩ := encloses_of_wrap wrapped
    exact ⟨long, by omega, unwrap_of_encloses encloses⟩
  · rcases unwrap_cases tag data with ⟨read, parsed, _, inside, _, taken⟩ | refused
    · exact .inl ⟨read, parsed, inside, taken⟩
    · exact .inr refused
  · rw [← header.toBytes.append_nil]
    exact ChunkHeader.parse_toBytes_append header []
  · intro long
    rcases ChunkHeader.parse_cases data with ⟨read, parsed, parts⟩ | ⟨short, _⟩
    · refine ⟨read, parsed, ?_⟩
      rw [parts, List.take_left' read.length_toBytes]
    · omega

/-- Three bytes are wrapped with a pad byte, taken out again, and taken out also of the same bytes
without the pad byte. -/
theorem wrap_unwrap_parse_odd :
    wrap .audio [7, 8, 9] = .ok [48, 49, 119, 98, 3, 0, 0, 0, 7, 8, 9, 0] ∧
    unwrap .audio [48, 49, 119, 98, 3, 0, 0, 0, 7, 8, 9, 0] = .ok [7, 8, 9] ∧
    unwrap .audio [48, 49, 119, 98, 3, 0, 0, 0, 7, 8, 9] = .ok [7, 8, 9] ∧
    ∃ read, ChunkHeader.parse [48, 49, 119, 98, 3, 0, 0, 0, 7, 8, 9] = .ok read ∧
      read.toBytes = [48, 49, 119, 98, 3, 0, 0, 0] := by
  have wrapped : wrap .audio [7, 8, 9] = .ok [48, 49, 119, 98, 3, 0, 0, 0, 7, 8, 9, 0] := rfl
  obtain ⟨-, taken, enclosed, -, -, parsed⟩ :=
    wrap_unwrap_parse .audio [7, 8, 9] [48, 49, 119, 98, 3, 0, 0, 0, 7, 8, 9] ⟨.audio, 0⟩
  refine ⟨wrapped, (taken _ wrapped).2.2, enclosed.2 ?_, parsed (by decide)⟩
  exact ⟨[3, 0, 0, 0], [], rfl, rfl, rfl, .inl rfl⟩

end Chunk

end Transcode
