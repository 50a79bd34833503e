import Transcode.Proofs.ChunkGrammar
import Transcode.Proofs.FixedFrames
/-!
# The whole input

A source counts the bytes that it reads. If it delivers frames only, it has reached the end of its
input and counted all of it (`Source.bytesRead_of_frames`): the bytes of the file, also those of
chunks that are passed over, or those of the frames prepared in memory.
-/

set_option autoImplicit false

namespace Transcode

/-- A file that is delivered without a fault was read whole. -/
theorem Splitting.read_of_frames {s : Splitting} {next : Nat} {bytes : Bytes} {frames : List Frame}
    (delivered : (s.frames next bytes).1 = frames.map .ok) :
    (s.frames next bytes).2 = bytes.length := by
  cases s with
  | fixed size =>
      have hpositive : 0 < max size 1 := Nat.lt_of_lt_of_le Nat.one_pos (Nat.le_max_right size 1)
      rw [frames_fixed_max, frames_fixed hpositive]
  | chunks tag =>
      obtain ⟨items, rest, rfl, hrest⟩ := ChunkFile.exists_items bytes
      rw [ChunkFile.frames_encode] at delivered ⊢
      rcases hrest with rfl | ⟨fault, cut⟩
      · simp only [ChunkFile.frames_end, List.append_nil, Nat.add_zero]
      · -- a cut is delivered as a fault, and that is no frame
        rw [ChunkFile.frames_cut cut] at delivered
        have hfault : Except.error (Error.invalidData fault) ∈ frames.map Except.ok := by
          rw [← delivered]
          exact List.mem_append_right _ List.mem_cons_self
        simp at hfault

namespace Source

variable {t : FileTree} {frames : List Frame}

/-- The bytes of all the input of a source: those delivered before, and all that are left. -/
def wholeSize (t : FileTree) : Source → Nat
  | memory queue n => n + payloadSize queue
  | file s =>
      match s.content with
      | some (.ok bytes) => s.bytesRead + bytes.length
      | some (.error _) => s.bytesRead
      | none =>
          match t.stat s.path with
          | .ok node => s.bytesRead + node.data.length
          | .error _ => s.bytesRead

/-- Messages that are frames up to the first failure hold no failure. -/
theorem untilFailure_eq {queue : List (Except Error Frame)}
    (delivered : untilFailure queue = frames.map .ok) : untilFailure queue = queue := by
  induction queue generalizing frames with
  | nil => rfl
  | cons m rest ih =>
      cases m with
      | error e => cases frames <;> cases delivered
      | ok frame =>
          cases frames with
          | nil => cases delivered
          | cons first frames => rw [untilFailure, ih (List.cons.inj delivered).2]

/-- A file that delivered frames and nothing else was opened and read. -/
theorem exists_opened_of_frames {s : FileSource}
    (delivered : ((file s).feed t).messages = frames.map .ok) :
    ∃ bytes, (s.opened t).result = .ok (.ok bytes) ∧
      (s.splitting.frames s.next bytes).1 = frames.map .ok ∧
      ((file s).feed t).bytesRead = s.bytesRead + (s.splitting.frames s.next bytes).2 := by
  have hfailed (e : Error) : ¬ [Except.error e] = frames.map Except.ok := by
    cases frames <;> simp
  cases hopened : (s.opened t).result with
  | error e => exact absurd (by simpa only [feed, hopened] using delivered) (hfailed e)
  | ok content =>
      cases content with
      | error e => exact absurd (by simpa only [feed, hopened] using delivered) (hfailed (.io e))
      | ok bytes =>
          simp only [feed, hopened] at delivered ⊢
          exact ⟨bytes, rfl, delivered, rfl⟩

/-- The whole size of an opened file: the bytes read and those left. -/
theorem wholeSize_of_opened {s : FileSource} {bytes : Bytes}
    (opened : (s.opened t).result = .ok (.ok bytes)) :
    wholeSize t (file s) = s.bytesRead + bytes.length := by
  cases hcontent : s.content with
  | some content =>
      simp only [FileSource.opened, hcontent, Except.ok.injEq] at opened
      simp only [wholeSize, hcontent, opened]
  | none =>
      cases hstat : t.stat s.path with
      | error e => simp [FileSource.opened, hcontent, hstat] at opened
      | ok node =>
          simp only [FileSource.opened, hcontent, hstat, Except.ok.injEq] at opened
          split at opened
          · cases opened
          · cases opened
            simp only [wholeSize, hcontent, hstat]

/-- A source that delivered frames and nothing else was read whole. -/
theorem bytesRead_of_frames (source : Source)
    (delivered : (source.feed t).messages = frames.map .ok) :
    (source.feed t).bytesRead = source.wholeSize t := by
  cases source with
  | memory queue n =>
      have hqueue : untilFailure queue = queue := untilFailure_eq delivered
      simp only [feed, wholeSize, hqueue]
  | file s =>
      obtain ⟨bytes, hopened, hframes, hread⟩ := exists_opened_of_frames delivered
      rw [hread, Splitting.read_of_frames hframes, wholeSize_of_opened hopened]

end Source

end Transcode
