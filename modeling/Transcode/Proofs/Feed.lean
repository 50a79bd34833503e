import Transcode.Source
/-!
# Reading a source to its end

`Source.ReadsTo` is the relation of a source to the messages of repeated pulls: frames, and then the
end of the input or one failure. The relation is total and deterministic, and `Source.feed` computes
it (`Source.exists_readsTo_feed`).
-/

set_option autoImplicit false

namespace Transcode

namespace Splitting

/-- A file with nothing to cut off has no frames. -/
theorem frames_of_ended {s : Splitting} {bytes : Bytes} (next : Nat)
    (h : (s.split bytes).result = .ok none) :
    s.frames next bytes = ([], (s.split bytes).read) := by
  rw [frames]
  split <;> simp_all

/-- A fault is the only message of the file that begins with it. -/
theorem frames_of_fault {s : Splitting} {bytes : Bytes} {fault : DataFault} (next : Nat)
    (h : (s.split bytes).result = .error fault) :
    s.frames next bytes = ([.error (.invalidData fault)], (s.split bytes).read) := by
  rw [frames]
  split <;> simp_all

/-- The piece cut off is the first frame, and the frames of the rest follow. -/
theorem frames_of_some {s : Splitting} {bytes data : Bytes} (next : Nat)
    (h : (s.split bytes).result = .ok (some data)) :
    s.frames next bytes =
      (.ok ⟨next, data⟩ :: (s.frames (next + 1) (s.split bytes).rest).1,
        (s.split bytes).read + (s.frames (next + 1) (s.split bytes).rest).2) := by
  conv => lhs; rw [frames]
  split <;> simp_all

end Splitting

namespace Source

/-- Reading a source to its end: the frames pulled, whether the input ended or a failure ended it,
and the source that is left. -/
inductive ReadsTo (t : FileTree) : Source → List Frame → Except Error Unit → Source → Prop where
  | ended {s : Source} (none : (s.pull t).result = .ok none) :
      ReadsTo t s [] (.ok ()) (s.pull t).state
  | failed {s : Source} {e : Error} (error : (s.pull t).result = .error e) :
      ReadsTo t s [] (.error e) (s.pull t).state
  | frame {s last : Source} {frame : Frame} {frames : List Frame} {ending : Except Error Unit}
      (some : (s.pull t).result = .ok (some frame))
      (rest : ReadsTo t (s.pull t).state frames ending last) :
      ReadsTo t s (frame :: frames) ending last

/-- The message in which a reading ends, if it ends in one. -/
def endMessages : Except Error Unit → List (Except Error Frame)
  | .ok () => []
  | .error e => [.error e]

/-- Frames and ending are determined by the messages. -/
theorem messages_injective {frames frames' : List Frame} {ending ending' : Except Error Unit}
    (h : frames.map .ok ++ endMessages ending = frames'.map .ok ++ endMessages ending') :
    frames = frames' ∧ ending = ending' := by
  -- a failure is the only message that is no frame, and it comes last
  induction frames generalizing frames' with
  | nil =>
      cases frames' with
      | nil =>
          refine ⟨rfl, ?_⟩
          cases ending <;> cases ending' <;> simp_all [endMessages]
      | cons frame' rest' => cases ending <;> simp [endMessages] at h
  | cons frame rest ih =>
      cases frames' with
      | nil => cases ending' <;> simp [endMessages] at h
      | cons frame' rest' =>
          simp only [List.map_cons, List.cons_append, List.cons.injEq, Except.ok.injEq] at h
          obtain ⟨rfl, hrest⟩ := h
          obtain ⟨rfl, rfl⟩ := ih hrest
          exact ⟨rfl, rfl⟩

/-- A source is read to its end in one way only. -/
theorem ReadsTo.unique {t : FileTree} {s last last' : Source} {frames frames' : List Frame}
    {ending ending' : Except Error Unit} (h : ReadsTo t s frames ending last)
    (h' : ReadsTo t s frames' ending' last') :
    frames = frames' ∧ ending = ending' ∧ last = last' := by
  induction h generalizing frames' with
  | ended hnone =>
      cases h' with
      | ended => exact ⟨rfl, rfl, rfl⟩
      | failed herror => simp [hnone] at herror
      | frame hsome => simp [hnone] at hsome
  | failed herror =>
      cases h' with
      | ended hnone => simp [herror] at hnone
      | failed herror' =>
          rw [herror] at herror'
          cases herror'
          exact ⟨rfl, rfl, rfl⟩
      | frame hsome => simp [herror] at hsome
  | frame hsome _ ih =>
      -- both readings pull the same frame, and go on from the same source
      cases h' with
      | ended hnone => simp [hsome] at hnone
      | failed herror => simp [hsome] at herror
      | frame hsome' hrest =>
          rw [hsome] at hsome'
          cases hsome'
          obtain ⟨rfl, rfl, rfl⟩ := ih hrest
          exact ⟨rfl, rfl, rfl⟩

/-- Sources that agree on their next pull are read alike. -/
theorem ReadsTo.of_pull {t : FileTree} {s s' last : Source} {frames : List Frame}
    {ending : Except Error Unit} (h : ReadsTo t s' frames ending last)
    (result : (s.pull t).result = (s'.pull t).result)
    (state : (s.pull t).state = (s'.pull t).state) : ReadsTo t s frames ending last := by
  cases h with
  | ended hnone => exact state ▸ .ended (result.trans hnone)
  | failed herror => exact state ▸ .failed (result.trans herror)
  | frame hsome hrest => exact .frame (result.trans hsome) (state ▸ hrest)

/-- An open file is read to the messages it is cut into. -/
theorem exists_readsTo_open (t : FileTree) (s : FileSource) (bytes : Bytes)
    (isOpen : s.content = some (.ok bytes)) :
    ∃ frames ending last, ReadsTo t (.file s) frames ending last ∧
      (s.splitting.frames s.next bytes).1 = frames.map .ok ++ endMessages ending ∧
      last.bytesRead = s.bytesRead + (s.splitting.frames s.next bytes).2 := by
  -- each pull cuts off one piece, so the induction is on the bytes that are left
  induction hn : bytes.length using Nat.strongRecOn generalizing s bytes with
  | ind n ih =>
      cases hpiece : (s.splitting.split bytes).result with
      | error fault =>
          refine ⟨[], .error (.invalidData fault), _, .failed ?_, ?_, ?_⟩
          · simp [pull, FileSource.pull, FileSource.opened, isOpen, hpiece]
          · rw [Splitting.frames_of_fault _ hpiece]
            rfl
          · rw [Splitting.frames_of_fault _ hpiece]
            simp [pull, FileSource.pull, FileSource.opened, isOpen, hpiece, bytesRead]
      | ok result =>
          cases result with
          | none =>
              refine ⟨[], .ok (), _, .ended ?_, ?_, ?_⟩
              · simp [pull, FileSource.pull, FileSource.opened, isOpen, hpiece]
              · rw [Splitting.frames_of_ended _ hpiece]
                rfl
              · rw [Splitting.frames_of_ended _ hpiece]
                simp [pull, FileSource.pull, FileSource.opened, isOpen, hpiece, bytesRead]
          | some data =>
              have shorter := Splitting.split_rest_length hpiece
              obtain ⟨frames, ending, last, hreads, hmessages, hread⟩ :=
                ih _ (hn ▸ shorter)
                  { s with
                    content := some (.ok (s.splitting.split bytes).rest)
                    bytesRead := s.bytesRead + (s.splitting.split bytes).read
                    next := s.next + 1 }
                  (s.splitting.split bytes).rest rfl rfl
              refine ⟨⟨s.next, data⟩ :: frames, ending, last, .frame ?_ ?_, ?_, ?_⟩
              · simp [pull, FileSource.pull, FileSource.opened, isOpen, hpiece]
              · simpa [pull, FileSource.pull, FileSource.opened, isOpen, hpiece] using hreads
              · rw [Splitting.frames_of_some _ hpiece]
                simpa using hmessages
              · rw [Splitting.frames_of_some _ hpiece]
                simpa [Nat.add_assoc] using hread

/-- A fold that adds to its start may add to zero instead. -/
theorem foldl_eq_add {step : Nat → Except Error Frame → Nat}
    (adds : ∀ n m, step n m = n + step 0 m) (messages : List (Except Error Frame)) (n : Nat) :
    messages.foldl step n = n + messages.foldl step 0 := by
  induction messages generalizing n with
  | nil => rfl
  | cons m rest ih => rw [List.foldl_cons, List.foldl_cons, ih, ih (step 0 m), adds, Nat.add_assoc]

theorem payloadSize_ok_cons (frame : Frame) (rest : List (Except Error Frame)) :
    payloadSize (.ok frame :: rest) = frame.size + payloadSize rest := by
  rw [payloadSize, List.foldl_cons, foldl_eq_add]
  · simp only [Nat.zero_add, payloadSize]
  · intro n m
    cases m with
    | error e => rfl
    | ok frame => simp only [Nat.zero_add]

/-- A queue in memory is read to its first failure. -/
theorem exists_readsTo_memory (t : FileTree) (queue : List (Except Error Frame)) (n : Nat) :
    ∃ frames ending last, ReadsTo t (.memory queue n) frames ending last ∧
      untilFailure queue = frames.map .ok ++ endMessages ending ∧
      last.bytesRead = n + payloadSize (untilFailure queue) := by
  induction queue generalizing n with
  | nil => exact ⟨[], .ok (), _, .ended rfl, rfl, rfl⟩
  | cons m rest ih =>
      cases m with
      | error e => exact ⟨[], .error e, _, .failed rfl, rfl, rfl⟩
      | ok frame =>
          obtain ⟨frames, ending, last, hreads, hmessages, hread⟩ := ih (n + frame.size)
          refine ⟨frame :: frames, ending, last, .frame rfl hreads, ?_, ?_⟩
          · simp [untilFailure, hmessages]
          · rw [untilFailure, payloadSize_ok_cons, hread, Nat.add_assoc]

/-- Opening the file is part of the first pull and changes nothing else. -/
theorem pull_of_stat {t : FileTree} {s : FileSource} {node : Node} (closed : s.content = none)
    (found : t.stat s.path = .ok node) (isFile : node.isDirectory = false) :
    ((file s).pull t).result = ((file { s with content := some (.ok node.data) }).pull t).result ∧
      ((file s).pull t).state =
        ((file { s with content := some (.ok node.data) }).pull t).state := by
  simp only [pull, FileSource.pull, FileSource.opened, closed, found, isFile]
  cases hpiece : (s.splitting.split node.data).result with
  | error fault => simp [hpiece]
  | ok result => cases result <;> simp [hpiece]

/-- Every source can be read to its end, and the feed is what the reading delivers. -/
theorem exists_readsTo_feed (t : FileTree) (s : Source) :
    ∃ frames ending last, ReadsTo t s frames ending last ∧
      (s.feed t).messages = frames.map .ok ++ endMessages ending ∧
      (s.feed t).bytesRead = last.bytesRead := by
  cases s with
  | memory queue n =>
      obtain ⟨frames, ending, last, hreads, hmessages, hread⟩ := exists_readsTo_memory t queue n
      exact ⟨frames, ending, last, hreads, hmessages, hread.symm⟩
  | file s =>
      cases hcontent : s.content with
      | some content =>
          cases content with
          | error e =>
              refine ⟨[], .error (.io e), _, .failed ?_, ?_, ?_⟩ <;>
                simp [feed, pull, FileSource.pull, FileSource.opened, hcontent, endMessages,
                  bytesRead]
          | ok bytes =>
              obtain ⟨frames, ending, last, hreads, hmessages, hread⟩ :=
                exists_readsTo_open t s bytes hcontent
              refine ⟨frames, ending, last, hreads, ?_, ?_⟩
              · simpa [feed, FileSource.opened, hcontent] using hmessages
              · simpa [feed, FileSource.opened, hcontent] using hread.symm
      | none =>
          cases hstat : t.stat s.path with
          | error e =>
              refine ⟨[], .error (.io e), _, .failed ?_, ?_, ?_⟩ <;>
                simp [feed, pull, FileSource.pull, FileSource.opened, hcontent, hstat,
                  endMessages, bytesRead]
          | ok node =>
              cases hdirectory : node.isDirectory with
              | true =>
                  refine ⟨[], .error (.io .isDirectory), _, .failed ?_, ?_, ?_⟩ <;>
                    simp [feed, pull, FileSource.pull, FileSource.opened, hcontent, hstat,
                      hdirectory, endMessages, bytesRead]
              | false =>
                  -- the first pull opens the file, so it is read as if it had been open before
                  obtain ⟨frames, ending, last, hreads, hmessages, hread⟩ :=
                    exists_readsTo_open t { s with content := some (.ok node.data) } node.data rfl
                  obtain ⟨hresult, hstate⟩ := pull_of_stat hcontent hstat hdirectory
                  refine ⟨frames, ending, last, hreads.of_pull hresult hstate, ?_, ?_⟩
                  · simpa [feed, FileSource.opened, hcontent, hstat, hdirectory] using hmessages
                  · simpa [feed, FileSource.opened, hcontent, hstat, hdirectory] using hread.symm

/-- The feed of a source is its reading. -/
theorem ReadsTo.feed_eq {t : FileTree} {s last : Source} {frames : List Frame}
    {ending : Except Error Unit} (h : ReadsTo t s frames ending last) :
    (s.feed t).messages = frames.map .ok ++ endMessages ending ∧
      (s.feed t).bytesRead = last.bytesRead := by
  obtain ⟨frames', ending', last', reads, messages, read⟩ := exists_readsTo_feed t s
  obtain ⟨rfl, rfl, rfl⟩ := h.unique reads
  exact ⟨messages, read⟩

/-- The feed of a file that is still to be opened. -/
theorem feed_file {t : FileTree} {path : String} {bytes : Bytes} {mode : Nat}
    (splitting : Splitting) (found : t.stat path = .ok (.file bytes mode)) :
    (file { path, splitting }).feed t =
      { messages := (splitting.frames 1 bytes).1
        bytesRead := (splitting.frames 1 bytes).2
        lines := [FileSource.openLine { path, splitting }] } := by
  simp [feed, FileSource.opened, found, Node.isDirectory, Node.data]

end Source

end Transcode
