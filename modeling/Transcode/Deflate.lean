import Transcode.Text.Utf8
/-!
# Deflate streams

A deflate stream is a row of blocks, the last one marked. A block holds its bytes as they are, or as
symbols of two prefix codes: one for bytes and the lengths of repetitions, one for how far back a
repetition begins. Writing uses plain blocks only; reading takes all of them. Every step of the
reader leaves less of the stream, which is why it ends; what was written is read back
(`inflate?_store`).
-/

set_option autoImplicit false

namespace Transcode.Deflate

/-! ## Bits -/

/-- A place in a stream: what is left of the byte being read, and the bytes behind it. -/
structure Cursor where
  bits : List Bool
  bytes : Bytes

/-- The bits of a byte, the least significant first. -/
def bitsOf (b : UInt8) : List Bool :=
  (List.range 8).map b.toNat.testBit

namespace Cursor

/-- The bits that are left. -/
def remaining (c : Cursor) : Nat :=
  c.bits.length + 8 * c.bytes.length

/-- The next bit. -/
def bit? (c : Cursor) : Option (Bool × Cursor) :=
  match c.bits, c.bytes with
  | b :: bits, bytes => some (b, ⟨bits, bytes⟩)
  | [], byte :: bytes => some (byte.toNat.testBit 0, ⟨(bitsOf byte).tail, bytes⟩)
  | [], [] => none

/-- A number of `n` bits, the least significant first. -/
def number? : Nat → Cursor → Option (Nat × Cursor)
  | 0, c => some (0, c)
  | n + 1, c => do
      let (b, c) ← c.bit?
      let (m, c) ← number? n c
      return (b.toNat + 2 * m, c)

theorem bit?_remaining {c c' : Cursor} {b : Bool} (h : c.bit? = some (b, c')) :
    c'.remaining < c.remaining := by
  unfold bit? at h
  split at h
  · next heq =>
      cases h
      simp [remaining, heq]
  · next hbits hbytes =>
      cases h
      simp [remaining, hbits, hbytes, bitsOf]
      omega
  · cases h

theorem number?_remaining {n m : Nat} {c c' : Cursor} (h : number? n c = some (m, c')) :
    c'.remaining ≤ c.remaining := by
  induction n generalizing m c with
  | zero =>
      cases h
      exact Nat.le_refl _
  | succ n ih =>
      simp only [number?, Option.bind_eq_bind, Option.bind_eq_some_iff] at h
      obtain ⟨⟨b, d⟩, hbit, ⟨k, e⟩, hrest, hend⟩ := h
      cases hend
      exact Nat.le_trans (ih hrest) (Nat.le_of_lt (bit?_remaining hbit))

end Cursor

/-! ## Prefix codes -/

/-- A prefix code: how many symbols have codes of each length, from one bit on, and the symbols in
the order of their codes. -/
structure Code where
  counts : List Nat
  symbols : Array Nat

namespace Code

/-- The longest code, in bits. -/
def longest : Nat := 15

/-- The code in which symbol `i` has the `i`-th length; a length of zero stands for no code. Symbols
of one length are in order, and shorter codes come first. A code for more than one symbol must use
up all bit patterns. -/
def ofLengths? (lengths : List Nat) : Option Code :=
  let sizes := (List.range longest).map (· + 1)
  let counts := sizes.map lengths.count
  let symbols := sizes.flatMap fun n =>
    (List.range lengths.length).filter fun i => lengths[i]? = some n
  let used := (sizes.zip counts).foldl (fun sum (n, k) => sum + k * Nat.pow 2 (longest - n)) 0
  if symbols.length ≤ 1 ∨ used = Nat.pow 2 longest then some ⟨counts, symbols.toArray⟩ else none

/-- Reads on in a code of which `code` has been read. The first code of the length reached is
`first`, and its symbol stands at `index`. -/
def read? (symbols : Array Nat) : List Nat → Nat → Nat → Nat → Cursor → Option (Nat × Cursor)
  | [], _, _, _, _ => none
  | count :: counts, code, first, index, c => do
      let (b, c) ← c.bit?
      let code := 2 * code + b.toNat
      if code < first + count then
        let symbol ← symbols[index + (code - first)]?
        return (symbol, c)
      else read? symbols counts code (2 * (first + count)) (index + count) c

/-- The next symbol. -/
def symbol? (code : Code) (c : Cursor) : Option (Nat × Cursor) :=
  read? code.symbols code.counts 0 0 0 c

theorem read?_remaining {symbols : Array Nat} {counts : List Nat} {code first index s : Nat}
    {c c' : Cursor} (h : read? symbols counts code first index c = some (s, c')) :
    c'.remaining < c.remaining := by
  induction counts generalizing code first index c with
  | nil => cases h
  | cons count counts ih =>
      simp only [read?, Option.bind_eq_bind, Option.bind_eq_some_iff] at h
      obtain ⟨⟨b, d⟩, hbit, hrest⟩ := h
      have := Cursor.bit?_remaining hbit
      split at hrest
      · simp only [Option.bind_eq_some_iff] at hrest
        obtain ⟨k, _, hend⟩ := hrest
        cases hend
        exact this
      · exact Nat.lt_trans (ih hrest) this

theorem symbol?_remaining {code : Code} {s : Nat} {c c' : Cursor}
    (h : code.symbol? c = some (s, c')) : c'.remaining < c.remaining :=
  read?_remaining h

/-- The code for bytes and lengths that needs no description. -/
def fixedLiterals : Option Code :=
  ofLengths? (List.replicate 144 8 ++ List.replicate 112 9 ++ List.replicate 24 7 ++
    List.replicate 8 8)

/-- The code for distances that needs no description. -/
def fixedDistances : Option Code :=
  ofLengths? (List.replicate 32 5)

end Code

/-! ## Repetitions -/

/-- The least length that each symbol from 257 on stands for, and the bits that add to it. -/
def lengthTable : List (Nat × Nat) :=
  [(3, 0), (4, 0), (5, 0), (6, 0), (7, 0), (8, 0), (9, 0), (10, 0), (11, 1), (13, 1), (15, 1),
    (17, 1), (19, 2), (23, 2), (27, 2), (31, 2), (35, 3), (43, 3), (51, 3), (59, 3), (67, 4),
    (83, 4), (99, 4), (115, 4), (131, 5), (163, 5), (195, 5), (227, 5), (258, 0)]

/-- The least distance that each symbol stands for, and the bits that add to it. -/
def distanceTable : List (Nat × Nat) :=
  [(1, 0), (2, 0), (3, 0), (4, 0), (5, 1), (7, 1), (9, 2), (13, 2), (17, 3), (25, 3), (33, 4),
    (49, 4), (65, 5), (97, 5), (129, 6), (193, 6), (257, 7), (385, 7), (513, 8), (769, 8),
    (1025, 9), (1537, 9), (2049, 10), (3073, 10), (4097, 11), (6145, 11), (8193, 12), (12289, 12),
    (16385, 13), (24577, 13)]

/-- The number a symbol stands for, with the bits that add to it. -/
def scaled? (table : List (Nat × Nat)) (i : Nat) (c : Cursor) : Option (Nat × Cursor) := do
  let (least, extra) ← table[i]?
  let (n, c) ← c.number? extra
  return (least + n, c)

/-- The length and the distance of the repetition that begins with a symbol. -/
def repetition? (distances : Code) (symbol : Nat) (c : Cursor) :
    Option ((Nat × Nat) × Cursor) := do
  let (length, c) ← scaled? lengthTable (symbol - 257) c
  let (d, c) ← distances.symbol? c
  let (distance, c) ← scaled? distanceTable d c
  return ((length, distance), c)

theorem scaled?_remaining {table : List (Nat × Nat)} {i n : Nat} {c c' : Cursor}
    (h : scaled? table i c = some (n, c')) : c'.remaining ≤ c.remaining := by
  simp only [scaled?, Option.bind_eq_bind, Option.bind_eq_some_iff] at h
  obtain ⟨_, _, _, hnumber, hend⟩ := h
  cases hend
  exact Cursor.number?_remaining hnumber

theorem repetition?_remaining {distances : Code} {symbol : Nat} {r : Nat × Nat} {c c' : Cursor}
    (h : repetition? distances symbol c = some (r, c')) : c'.remaining ≤ c.remaining := by
  simp only [repetition?, Option.bind_eq_bind, Option.bind_eq_some_iff] at h
  obtain ⟨_, hlength, _, hsymbol, _, hdistance, hend⟩ := h
  cases hend
  exact Nat.le_trans (scaled?_remaining hdistance)
    (Nat.le_trans (Nat.le_of_lt (Code.symbol?_remaining hsymbol)) (scaled?_remaining hlength))

/-- Repeats `length` bytes from `distance` bytes back; the latest byte stands first. What lies
before the first byte counts as zeros. -/
def repeated (distance : Nat) : Nat → Bytes → Bytes
  | 0, out => out
  | length + 1, out => repeated distance length (out.getD (distance - 1) 0 :: out)

/-! ## Descriptions of codes -/

/-- The order in which the lengths of the code for lengths are given. -/
def lengthOrder : List Nat :=
  [16, 17, 18, 0, 8, 7, 9, 6, 10, 5, 11, 4, 12, 3, 13, 2, 14, 1, 15]

/-- Numbers of three bits each. -/
def triples? : Nat → Cursor → Option (List Nat × Cursor)
  | 0, c => some ([], c)
  | n + 1, c => do
      let (m, c) ← c.number? 3
      let (ms, c) ← triples? n c
      return (m :: ms, c)

/-- A run of equal lengths: what is repeated and how often. -/
def lengthRun? (symbol : Nat) (read : List Nat) (c : Cursor) : Option ((Nat × Nat) × Cursor) :=
  if symbol < 16 then some ((symbol, 1), c)
  else if symbol = 16 then do
    let previous ← read.head?
    let (n, c) ← c.number? 2
    return ((previous, 3 + n), c)
  else if symbol = 17 then (c.number? 3).map fun (n, c) => ((0, 3 + n), c)
  else (c.number? 7).map fun (n, c) => ((0, 11 + n), c)

/-- Reads `total` lengths of codes; the latest stands first in `read`. Each symbol gives at least
one length, so that `symbols` is as large as `total` at the start. -/
def lengths? (code : Code) (total : Nat) : Nat → List Nat → Cursor → Option (List Nat × Cursor)
  | symbols, read, c =>
      if read.length = total then some (read.reverse, c)
      else if total < read.length then none
      else
        match symbols with
        | 0 => none
        | symbols + 1 => do
            let (symbol, c) ← code.symbol? c
            let ((n, times), c) ← lengthRun? symbol read c
            lengths? code total symbols (List.replicate times n ++ read) c

/-- Whether a description gives lengths to no more symbols than stand for something. -/
def sizesFit (literals distances : Nat) : Bool :=
  literals ≤ 257 + lengthTable.length && distances ≤ distanceTable.length

/-- Reads the description of the two codes of a block. -/
def codes? (c : Cursor) : Option ((Code × Code) × Cursor) := do
  let (moreLiterals, c) ← c.number? 5
  let (moreDistances, c) ← c.number? 5
  let (described, c) ← c.number? 4
  let literals := moreLiterals + 257
  let distances := moreDistances + 1
  if sizesFit literals distances then
    let (given, c) ← triples? (described + 4) c
    let code ← Code.ofLengths? ((List.range 19).map fun i =>
      ((lengthOrder.zip given).lookup i).getD 0)
    let total := literals + distances
    let (lengths, c) ← lengths? code total total [] c
    let first ← Code.ofLengths? (lengths.take literals)
    let second ← Code.ofLengths? (lengths.drop literals)
    return ((first, second), c)
  else none

theorem triples?_remaining {n : Nat} {ms : List Nat} {c c' : Cursor}
    (h : triples? n c = some (ms, c')) : c'.remaining ≤ c.remaining := by
  induction n generalizing ms c with
  | zero =>
      cases h
      exact Nat.le_refl _
  | succ n ih =>
      simp only [triples?, Option.bind_eq_bind, Option.bind_eq_some_iff] at h
      obtain ⟨_, hnumber, _, hrest, hend⟩ := h
      cases hend
      exact Nat.le_trans (ih hrest) (Cursor.number?_remaining hnumber)

theorem lengthRun?_remaining {symbol : Nat} {read : List Nat} {r : Nat × Nat} {c c' : Cursor}
    (h : lengthRun? symbol read c = some (r, c')) : c'.remaining ≤ c.remaining := by
  unfold lengthRun? at h
  split at h
  · cases h
    exact Nat.le_refl _
  · split at h
    · simp only [Option.bind_eq_bind, Option.bind_eq_some_iff] at h
      obtain ⟨_, _, _, hnumber, hend⟩ := h
      cases hend
      exact Cursor.number?_remaining hnumber
    · split at h <;>
      · simp only [Option.map_eq_some_iff] at h
        obtain ⟨_, hnumber, hend⟩ := h
        cases hend
        exact Cursor.number?_remaining hnumber

theorem lengths?_remaining {code : Code} {total symbols : Nat} {read ms : List Nat}
    {c c' : Cursor} (h : lengths? code total symbols read c = some (ms, c')) :
    c'.remaining ≤ c.remaining := by
  induction symbols generalizing read c with
  | zero =>
      rw [lengths?] at h
      split at h
      · cases h
        exact Nat.le_refl _
      · split at h <;> cases h
  | succ symbols ih =>
      rw [lengths?] at h
      split at h
      · cases h
        exact Nat.le_refl _
      · split at h
        · cases h
        · simp only [Option.bind_eq_bind, Option.bind_eq_some_iff] at h
          obtain ⟨_, hsymbol, _, hrun, hrest⟩ := h
          exact Nat.le_trans (ih hrest) (Nat.le_trans (lengthRun?_remaining hrun)
            (Nat.le_of_lt (Code.symbol?_remaining hsymbol)))

theorem codes?_remaining {codes : Code × Code} {c c' : Cursor}
    (h : codes? c = some (codes, c')) : c'.remaining ≤ c.remaining := by
  simp only [codes?, Option.bind_eq_bind, Option.bind_eq_some_iff] at h
  obtain ⟨_, h₁, _, h₂, _, h₃, h⟩ := h
  split at h
  · simp only [Option.bind_eq_some_iff] at h
    obtain ⟨_, h₄, _, _, _, h₅, _, _, _, _, hend⟩ := h
    cases hend
    exact Nat.le_trans (lengths?_remaining h₅) (Nat.le_trans (triples?_remaining h₄)
      (Nat.le_trans (Cursor.number?_remaining h₃) (Nat.le_trans (Cursor.number?_remaining h₂)
        (Cursor.number?_remaining h₁))))
  · cases h

/-! ## Blocks -/

/-- A stream being read. -/
structure Reader where
  cursor : Cursor
  /-- The bytes read so far, the latest first. -/
  out : Bytes := []
  /-- Whether the block being read, or the one before, is marked as the last. -/
  final : Bool := false
  /-- The codes for bytes and for distances, inside a block of symbols. -/
  codes? : Option (Code × Code) := none

/-- The length of a plain block, if its two copies agree. -/
def plainLength? (a b c d : UInt8) : Option Nat :=
  let n := a.toNat + 256 * b.toNat
  if n + (c.toNat + 256 * d.toNat) = 65535 then some n else none

/-- Reads a plain block, which begins with a whole byte: its bytes and what follows. -/
def plain? : Bytes → Option (Bytes × Bytes)
  | a :: b :: c :: d :: rest => do
      let n ← plainLength? a b c d
      if (rest.take n).length = n then some (rest.take n, rest.drop n) else none
  | _ => none

theorem plain?_length {bytes data rest : Bytes} (h : plain? bytes = some (data, rest)) :
    rest.length ≤ bytes.length := by
  unfold plain? at h
  split at h
  · simp only [Option.bind_eq_bind, Option.bind_eq_some_iff] at h
    obtain ⟨n, _, hrest⟩ := h
    split at hrest
    · cases hrest
      simp only [List.length_drop, List.length_cons]
      omega
    · cases hrest
  · cases h

namespace Reader

/-- Begins a block of one of three kinds; a plain one is read as a whole. -/
def begin? (r : Reader) : Option Reader := do
  let (final, c) ← r.cursor.bit?
  let (kind, c) ← c.number? 2
  if kind = 0 then
    let (data, rest) ← plain? c.bytes
    return { cursor := ⟨[], rest⟩, out := data.reverse ++ r.out, final }
  else if kind = 1 then
    let literals ← Code.fixedLiterals
    let distances ← Code.fixedDistances
    return { cursor := c, out := r.out, final, codes? := some (literals, distances) }
  else if kind = 2 then
    let (codes, c) ← Deflate.codes? c
    return { cursor := c, out := r.out, final, codes? := some codes }
  else none

/-- Takes the next symbol of a block: a byte, the end of the block, or a repetition. -/
def advance? (r : Reader) (literals distances : Code) : Option Reader := do
  let (symbol, c) ← literals.symbol? r.cursor
  if symbol < 256 then return { r with cursor := c, out := UInt8.ofNat symbol :: r.out }
  else if symbol = 256 then return { r with cursor := c, codes? := none }
  else
    let ((length, distance), c) ← repetition? distances symbol c
    return { r with cursor := c, out := repeated distance length r.out }

/-- Reads on: a symbol inside a block, the beginning of one elsewhere. -/
def step? (r : Reader) : Option Reader :=
  match r.codes? with
  | none => r.begin?
  | some (literals, distances) => r.advance? literals distances

theorem begin?_remaining {r r' : Reader} (h : r.begin? = some r') :
    r'.cursor.remaining < r.cursor.remaining := by
  simp only [begin?, Option.bind_eq_bind, Option.bind_eq_some_iff] at h
  obtain ⟨_, hbit, ⟨kind, c⟩, hkind, h⟩ := h
  refine Nat.lt_of_le_of_lt (Nat.le_trans ?_ (Cursor.number?_remaining hkind))
    (Cursor.bit?_remaining hbit)
  split at h
  · simp only [Option.bind_eq_some_iff] at h
    obtain ⟨_, hplain, hend⟩ := h
    cases hend
    have := plain?_length hplain
    simp only [Cursor.remaining, List.length_nil]
    omega
  · split at h
    · simp only [Option.bind_eq_some_iff] at h
      obtain ⟨_, _, _, _, hend⟩ := h
      cases hend
      exact Nat.le_refl _
    · split at h
      · simp only [Option.bind_eq_some_iff] at h
        obtain ⟨_, hcodes, hend⟩ := h
        cases hend
        exact codes?_remaining hcodes
      · cases h

theorem advance?_remaining {r r' : Reader} {literals distances : Code}
    (h : r.advance? literals distances = some r') :
    r'.cursor.remaining < r.cursor.remaining := by
  simp only [advance?, Option.bind_eq_bind, Option.bind_eq_some_iff] at h
  obtain ⟨⟨symbol, c⟩, hsymbol, h⟩ := h
  refine Nat.lt_of_le_of_lt ?_ (Code.symbol?_remaining hsymbol)
  split at h
  · cases h
    exact Nat.le_refl _
  · split at h
    · cases h
      exact Nat.le_refl _
    · simp only [Option.bind_eq_some_iff] at h
      obtain ⟨_, hrep, hend⟩ := h
      cases hend
      exact repetition?_remaining hrep

/-- A step leaves less of the stream. -/
theorem step?_remaining {r r' : Reader} (h : r.step? = some r') :
    r'.cursor.remaining < r.cursor.remaining := by
  unfold step? at h
  split at h
  · exact begin?_remaining h
  · exact advance?_remaining h

/-- Reads to the end of the block marked as the last; gives the bytes and what follows. -/
def run (r : Reader) : Option (Bytes × Bytes) :=
  if r.final ∧ r.codes?.isNone then some (r.out.reverse, r.cursor.bytes)
  else
    match _h : r.step? with
    | none => none
    | some r' => r'.run
termination_by r.cursor.remaining
decreasing_by exact step?_remaining _h

end Reader

/-- Reads a stream at the front; gives its bytes and what follows. -/
def inflate? (bytes : Bytes) : Option (Bytes × Bytes) :=
  ({ cursor := ⟨[], bytes⟩ } : Reader).run

/-! ## Plain streams -/

/-- The bytes a plain block holds at most. -/
def plainSize : Nat := 65535

/-- A number of 16 bits, the least significant byte first. -/
def half (n : Nat) : Bytes :=
  [UInt8.ofNat n, UInt8.ofNat (n / 256)]

/-- A plain block. -/
def plainBlock (final : Bool) (data : Bytes) : Bytes :=
  (if final then 1 else 0) :: half data.length ++ half (65535 - data.length) ++ data

/-- A stream of plain blocks. -/
def store (data : Bytes) : Bytes :=
  if plainSize < data.length then
    plainBlock false (data.take plainSize) ++ store (data.drop plainSize)
  else plainBlock true data
termination_by data.length
decreasing_by
  simp only [List.length_drop, plainSize] at *
  omega

theorem plainLength?_half {n : Nat} (h : n ≤ plainSize) :
    plainLength? (UInt8.ofNat n) (UInt8.ofNat (n / 256)) (UInt8.ofNat (65535 - n))
      (UInt8.ofNat ((65535 - n) / 256)) = some n := by
  unfold plainSize at h
  simp only [plainLength?, UInt8.toNat_ofNat']
  rw [if_pos (by omega)]
  congr 1
  omega

theorem plain?_half (rest : Bytes) {data : Bytes} (h : data.length ≤ plainSize) :
    plain? (half data.length ++ half (65535 - data.length) ++ data ++ rest) =
      some (data, rest) := by
  simp [half, plain?, plainLength?_half h]

theorem begin?_plainBlock (out : Bytes) (final : Bool) {data rest : Bytes}
    (h : data.length ≤ plainSize) :
    ({ cursor := ⟨[], plainBlock final data ++ rest⟩, out } : Reader).begin? =
      some { cursor := ⟨[], rest⟩, out := data.reverse ++ out, final } := by
  have hplain := plain?_half rest h
  simp only [List.append_assoc] at hplain
  have hzero : bitsOf 0 = List.replicate 8 false := by decide
  have hone : bitsOf 1 = true :: List.replicate 7 false := by decide
  cases final <;>
    simp [Reader.begin?, plainBlock, Cursor.bit?, hzero, hone, Cursor.number?, hplain,
      List.replicate]

/-- Reading takes back what was stored, behind what was read before. -/
theorem run_store (data out rest : Bytes) :
    ({ cursor := ⟨[], store data ++ rest⟩, out } : Reader).run =
      some (out.reverse ++ data, rest) := by
  induction data using store.induct generalizing out with
  | case1 data h ih =>
      rw [store, if_pos h, List.append_assoc, Reader.run, if_neg (by simp)]
      have hstep : ({ cursor := ⟨[], plainBlock false (data.take plainSize) ++
          (store (data.drop plainSize) ++ rest)⟩, out } : Reader).step? = _ :=
        begin?_plainBlock out false (List.length_take_le _ _)
      split
      · next hnone => rw [hstep] at hnone; cases hnone
      · next hsome =>
          rw [hstep] at hsome
          cases hsome
          rw [ih]
          simp
  | case2 data h =>
      rw [store, if_neg h, Reader.run, if_neg (by simp)]
      have hstep : ({ cursor := ⟨[], plainBlock true data ++ rest⟩, out } : Reader).step? = _ :=
        begin?_plainBlock out true (by omega)
      split
      · next hnone => rw [hstep] at hnone; cases hnone
      · next hsome =>
          rw [hstep] at hsome
          cases hsome
          rw [Reader.run]
          simp

/-- Reading takes back what was stored. -/
theorem inflate?_store (data rest : Bytes) :
    inflate? (store data ++ rest) = some (data, rest) := by
  simpa [inflate?] using run_store data [] rest

end Transcode.Deflate
