import Transcode.Proofs.Feed
/-!
# Frames of a fixed size

A file that is cut into frames of a fixed size gives `Splitting.pieces`: piece number `i` is the
bytes from `i * size` on, `size` of them or what is left. Their number is the least that covers all
bytes, they concatenate to the file (`Splitting.flatten_pieces`), and the reader delivers them
without a failure (`Splitting.frames_fixed`). A size of zero counts as one
(`Splitting.frames_fixed_max`). Pulled one by one, they are numbered from one on, and every further
pull gives the end (`Source.readsTo_fixed`, `Source.pulled_of_ended`).
-/

set_option autoImplicit false

namespace Transcode

namespace Frame

theorem map_data_number (start : Nat) (payloads : List Bytes) :
    (number start payloads).map data = payloads := by
  induction payloads generalizing start with
  | nil => rfl
  | cons data rest ih => rw [number, List.map_cons, ih]

theorem number_eq_nil_iff {start : Nat} {payloads : List Bytes} :
    number start payloads = [] ↔ payloads = [] := by
  cases payloads with
  | nil => simp [number]
  | cons data rest => simp [number]

theorem map_sequence_number (start : Nat) (payloads : List Bytes) :
    (number start payloads).map sequence = List.range' start payloads.length := by
  induction payloads generalizing start with
  | nil => rfl
  | cons data rest ih => rw [number, List.map_cons, ih, List.length_cons, List.range'_succ]

end Frame

namespace Splitting

/-- The pieces of a byte string, each of `size` bytes but maybe the last one. -/
def pieces (size : Nat) (bytes : Bytes) : List Bytes :=
  (List.range ((bytes.length + size - 1) / size)).map fun i => (bytes.drop (i * size)).take size

variable {size : Nat} {bytes : Bytes}

@[simp] theorem length_pieces (size : Nat) (bytes : Bytes) :
    (pieces size bytes).length = (bytes.length + size - 1) / size := by
  simp [pieces]

theorem pieces_nil (positive : 0 < size) : pieces size [] = [] := by
  have hcount : ([] : Bytes).length + size - 1 < size := by
    rw [List.length_nil]
    omega
  rw [pieces, Nat.div_eq_of_lt hcount]
  rfl

/-- One piece more is needed than for the bytes behind the first one. -/
theorem count_drop (positive : 0 < size) (begun : bytes ≠ []) :
    (bytes.length + size - 1) / size = ((bytes.drop size).length + size - 1) / size + 1 := by
  have hlength := List.length_pos_iff.2 begun
  rw [List.length_drop]
  by_cases hshort : bytes.length ≤ size
  · -- the first piece is the last one
    have hbehind : (bytes.length - size + size - 1) / size = 0 := Nat.div_eq_of_lt (by omega)
    rw [hbehind, show bytes.length + size - 1 = bytes.length - 1 + size by omega,
      Nat.add_div_right _ positive, Nat.div_eq_of_lt (by omega)]
  · rw [← Nat.add_div_right _ positive]
    congr 1
    omega

theorem pieces_cons (positive : 0 < size) (begun : bytes ≠ []) :
    pieces size bytes = bytes.take size :: pieces size (bytes.drop size) := by
  rw [pieces, count_drop positive begun, List.range_succ_eq_map, List.map_cons, List.map_map]
  congr 1
  · rw [Nat.zero_mul, List.drop_zero]
  · apply List.map_congr_left
    intro i _
    rw [Function.comp, List.drop_drop, Nat.succ_mul, Nat.add_comm]

theorem take_ne_nil (positive : 0 < size) (begun : bytes ≠ []) : bytes.take size ≠ [] := by
  rw [ne_eq, List.take_eq_nil_iff]
  rintro (hzero | hnil)
  · exact absurd hzero (Nat.ne_of_gt positive)
  · exact begun hnil

/-- No piece is longer than the first one. -/
theorem length_le_of_mem_pieces {piece : Bytes} (h : piece ∈ pieces size bytes) :
    piece.length ≤ min size bytes.length := by
  obtain ⟨i, _, rfl⟩ := List.mem_map.1 h
  rw [List.length_take, List.length_drop]
  omega

/-- Induction on the pieces of a byte string. -/
theorem pieces_induction {motive : Bytes → Prop} (positive : 0 < size) (nil : motive [])
    (cons : ∀ bytes, bytes ≠ [] → motive (bytes.drop size) → motive bytes) (bytes : Bytes) :
    motive bytes := by
  induction hn : bytes.length using Nat.strongRecOn generalizing bytes with
  | ind n ih =>
      by_cases begun : bytes = []
      · subst begun
        exact nil
      · apply cons bytes begun
        have hlength := List.length_pos_iff.2 begun
        refine ih (bytes.drop size).length ?_ _ rfl
        rw [List.length_drop]
        omega

/-- The pieces concatenate to the file. -/
theorem flatten_pieces (positive : 0 < size) (bytes : Bytes) :
    (pieces size bytes).flatten = bytes := by
  induction bytes using pieces_induction positive with
  | nil => rw [pieces_nil positive, List.flatten_nil]
  | cons bytes begun ih =>
      rw [pieces_cons positive begun, List.flatten_cons, ih, List.take_append_drop]

theorem ne_nil_of_mem_pieces (positive : 0 < size) {piece : Bytes} (h : piece ∈ pieces size bytes) :
    piece ≠ [] := by
  induction bytes using pieces_induction positive with
  | nil =>
      rw [pieces_nil positive] at h
      cases h
  | cons bytes begun ih =>
      rw [pieces_cons positive begun] at h
      rcases List.mem_cons.1 h with rfl | h
      · exact take_ne_nil positive begun
      · exact ih h

/-- All pieces but the last one have the full size. -/
theorem length_of_mem_dropLast (positive : 0 < size) {piece : Bytes}
    (h : piece ∈ (pieces size bytes).dropLast) : piece.length = size := by
  induction bytes using pieces_induction positive with
  | nil =>
      rw [pieces_nil positive] at h
      cases h
  | cons bytes begun ih =>
      rw [pieces_cons positive begun] at h
      by_cases hbehind : bytes.drop size = []
      · rw [hbehind, pieces_nil positive] at h
        cases h
      · -- another piece follows, so the first one is not the last
        have hmore : pieces size (bytes.drop size) ≠ [] := by
          rw [pieces_cons positive hbehind]
          exact List.cons_ne_nil _ _
        rw [List.dropLast_cons_of_ne_nil hmore] at h
        rcases List.mem_cons.1 h with rfl | h
        · have hlong := List.length_pos_iff.2 hbehind
          rw [List.length_drop] at hlong
          rw [List.length_take]
          omega
        · exact ih h

theorem split_fixed (positive : 0 < size) (begun : bytes ≠ []) : (fixed size).split bytes =
    ⟨.ok (some (bytes.take size)), bytes.drop size, (bytes.take size).length⟩ := by
  rw [split, Nat.max_eq_left positive, if_neg (take_ne_nil positive begun)]

/-- The reader delivers the pieces, and has then read the whole file. -/
theorem frames_fixed (positive : 0 < size) (next : Nat) (bytes : Bytes) :
    (fixed size).frames next bytes =
      ((Frame.number next (pieces size bytes)).map .ok, bytes.length) := by
  induction bytes using pieces_induction positive generalizing next with
  | nil =>
      have hsplit : ((fixed size).split []).result = .ok none := by simp [split]
      rw [frames_of_ended next hsplit, pieces_nil positive]
      simp [split, Frame.number]
  | cons bytes begun ih =>
      have hsplit := split_fixed positive begun
      rw [frames_of_some next (by rw [hsplit]), hsplit, pieces_cons positive begun]
      simp only [ih, Frame.number, List.map_cons]
      rw [← List.length_append, List.take_append_drop]

/-- A size of zero counts as one. -/
theorem frames_fixed_max (size next : Nat) (bytes : Bytes) :
    (fixed size).frames next bytes = (fixed (max size 1)).frames next bytes := by
  have hsplit (bytes : Bytes) : (fixed (max size 1)).split bytes = (fixed size).split bytes := by
    simp [split]
  induction hn : bytes.length using Nat.strongRecOn generalizing next bytes with
  | ind n ih =>
      cases hresult : ((fixed size).split bytes).result with
      | error fault =>
          rw [frames_of_fault next hresult, frames_of_fault next (by rwa [hsplit]), hsplit]
      | ok piece =>
          cases piece with
          | none =>
              rw [frames_of_ended next hresult, frames_of_ended next (by rwa [hsplit]), hsplit]
          | some data =>
              have hshorter := split_rest_length hresult
              rw [frames_of_some next hresult, frames_of_some next (by rwa [hsplit]), hsplit,
                ih _ (hn ▸ hshorter) (next + 1) _ rfl]

end Splitting

/-! ## Pulling -/

namespace Source

variable {t : FileTree} {size : Nat} {bytes : Bytes}

/-- A source that was asked so many times for a frame. -/
def pulled (t : FileTree) : Nat → Source → Source
  | 0, s => s
  | n + 1, s => pulled t n (s.pull t).state

/-- A file that is used up stays as it is. -/
theorem pull_of_ended {s : FileSource} (fixed : s.splitting = .fixed size)
    (ended : s.content = some (.ok [])) :
    ((file s).pull t).result = .ok none ∧ ((file s).pull t).state = file s := by
  obtain ⟨path, splitting, content, next, bytesRead⟩ := s
  cases fixed
  cases ended
  simp [pull, FileSource.pull, FileSource.opened, Splitting.split]

theorem pulled_of_ended {s : FileSource} (fixed : s.splitting = .fixed size)
    (ended : s.content = some (.ok [])) (n : Nat) : pulled t n (file s) = file s := by
  induction n with
  | zero => rfl
  | succ n ih => rw [pulled, (pull_of_ended fixed ended).2, ih]

/-- An open file is read to the end, piece by piece. -/
theorem readsTo_fixed (positive : 0 < size) (s : FileSource) (fixed : s.splitting = .fixed size)
    (isOpen : s.content = some (.ok bytes)) :
    ReadsTo t (file s) (Frame.number s.next (Splitting.pieces size bytes)) (.ok ())
      (file { s with
        content := some (.ok []), next := s.next + (Splitting.pieces size bytes).length
        bytesRead := s.bytesRead + bytes.length }) := by
  induction bytes using Splitting.pieces_induction positive generalizing s with
  | nil =>
      obtain ⟨hresult, hstate⟩ := pull_of_ended (t := t) fixed isOpen
      have hended := ReadsTo.ended hresult
      obtain ⟨path, splitting, content, next, bytesRead⟩ := s
      cases isOpen
      rw [hstate] at hended
      rw [Splitting.pieces_nil positive]
      exact hended
  | cons bytes begun ih =>
      have hsplit : s.splitting.split bytes = _ := fixed ▸ Splitting.split_fixed positive begun
      let next : FileSource :=
        { s with
          content := some (.ok (bytes.drop size)), next := s.next + 1
          bytesRead := s.bytesRead + (bytes.take size).length }
      have hresult : ((file s).pull t).result = .ok (some ⟨s.next, bytes.take size⟩) := by
        simp [pull, FileSource.pull, FileSource.opened, isOpen, hsplit]
      have hstate : ((file s).pull t).state = file next := by
        simp [pull, FileSource.pull, FileSource.opened, isOpen, hsplit, next]
      have hlength : s.bytesRead + (bytes.take size).length + (bytes.drop size).length =
          s.bytesRead + bytes.length := by
        rw [Nat.add_assoc, ← List.length_append, List.take_append_drop]
      have hreads := ih next fixed rfl
      rw [hlength, Nat.add_assoc, Nat.add_comm 1] at hreads
      rw [Splitting.pieces_cons positive begun, List.length_cons, Frame.number]
      exact .frame hresult (hstate ▸ hreads)

/-- Reading of a file that is still to be opened. -/
theorem readsTo_file (positive : 0 < size) {path : String} {mode : Nat}
    (found : t.stat path = .ok (.file bytes mode)) :
    ReadsTo t (file { path, splitting := .fixed size })
      (Frame.number 1 (Splitting.pieces size bytes))
      (.ok ()) (file
        { path, splitting := .fixed size, content := some (.ok [])
          next := 1 + (Splitting.pieces size bytes).length, bytesRead := bytes.length }) := by
  obtain ⟨hresult, hstate⟩ := pull_of_stat (s := { path, splitting := .fixed size }) rfl found rfl
  have hreads := readsTo_fixed (t := t) positive
    { path, splitting := .fixed size, content := some (.ok bytes) } rfl rfl
  rw [Nat.zero_add] at hreads
  exact hreads.of_pull hresult hstate

/-- The feed of a file that is cut into frames of a fixed size. -/
theorem feed_fixed (positive : 0 < size) {path : String} {mode : Nat}
    (found : t.stat path = .ok (.file bytes mode)) :
    ((file { path, splitting := .fixed size }).feed t).messages =
        (Frame.number 1 (Splitting.pieces size bytes)).map .ok ∧
      ((file { path, splitting := .fixed size }).feed t).bytesRead = bytes.length := by
  rw [feed_file _ found, Splitting.frames_fixed positive]
  exact ⟨rfl, rfl⟩

end Source

end Transcode
