import Transcode.Proofs.FileTree
import Transcode.Proofs.Passage
/-!
# The effect of a file sink on its tree

A file sink writes to the part path, its path with `.part` added. The part path ends in a name and
leads to another place than the path itself, so nothing but the file there changes until a commit.
`FileSink.Filled` is the invariant of a sink to which frames were written, granted or refused:
no file was opened, or the file and the buffer together hold a sublist of the data, and all of it
where no write was refused. `FileSink.Rests` is the same for a closed sink.
`FileSink.Filled.commit` and `FileSink.Rests.abort` give the tree after a commit and an abort.
-/

set_option autoImplicit false

namespace Transcode

/-! ## The path beside the output -/

namespace FileTree

theorem part_unslashed (path : String) :
    ((path ++ ".part").toList.getLast? == some '/') = false := by
  simp [String.toList_append]

/-- The path beside an output path differs from it in its last part only, and that is a name. -/
theorem exists_parts_part (path : String) :
    ∃ front last name, parts path = front ++ [last] ∧ parts (path ++ ".part") = front ++ [name] ∧
      name ≠ "." ∧ name ≠ ".." ∧ name ≠ last := by
  have hplain : '/' ∉ ".part".toList := by decide
  obtain ⟨front, last, hcut, hpart⟩ := Path.cut_append hplain path.toList
  have hlong : ∀ word : String, word.toList.length < 5 + last.length →
      String.ofList (last ++ ".part".toList) ≠ word := by
    rintro _ hlength rfl
    simp at hlength
    omega
  have hname : last ++ ".part".toList ≠ [] := by simp
  refine ⟨_, _, _, by rw [parts, hcut, List.map_append, List.map_singleton],
    by rw [parts, String.toList_append, hpart, List.map_append, List.map_singleton, if_neg hname],
    ?_, ?_, ?_⟩
  · exact hlong "." (by simp; omega)
  · exact hlong ".." (by simp; omega)
  · apply hlong
    split
    · simp; omega
    · simp

theorem names_part {t : FileTree} {path : String} {place : Location}
    (h : t.locate (path ++ ".part") = .ok place) : t.Names (path ++ ".part") place := by
  obtain ⟨front, last, name, _, hpart, hdot, hup, _⟩ := exists_parts_part path
  refine names_of_locate (part_unslashed path) ?_ ⟨hdot, hup⟩ h
  rw [hpart, List.getLast?_concat]

theorem walk_of_locate {t : FileTree} {path : String} {place : Location}
    (h : t.locate path = .ok place) :
    path.toList ≠ [] ∧ t.walk (t.start path) (parts path) = .ok place := by
  rw [locate] at h
  split at h
  · cases h
  · next hfault =>
      refine ⟨?_, h⟩
      intro hempty
      simp [pathFault?, hempty] at hfault

theorem start_part (t : FileTree) {path : String} (nonempty : path.toList ≠ []) :
    t.start (path ++ ".part") = t.start path := by
  obtain ⟨c, cs, hpath⟩ := List.exists_cons_of_ne_nil nonempty
  simp only [start, Path.isAbsolute, String.toList_append, hpath, List.cons_append, List.head?_cons]

/-- The path beside an output path leads to another place. -/
theorem locate_part_ne {t : FileTree} {path : String} {place : Location}
    (h : t.locate path = .ok place) : t.locate (path ++ ".part") ≠ .ok place := by
  intro hpart
  obtain ⟨front, last, name, hparts, hparts', hdot, hup, hne⟩ := exists_parts_part path
  obtain ⟨hnonempty, hwalk⟩ := walk_of_locate h
  obtain ⟨_, hwalk'⟩ := walk_of_locate hpart
  rw [hparts, walk_append] at hwalk
  rw [hparts', walk_append, t.start_part hnonempty] at hwalk'
  -- both paths stand in the same directory
  cases hfront : t.walk (t.start path) front with
  | error e => simp [hfront, Except.bind] at hwalk
  | ok directory =>
      simp only [hfront, Except.bind, walk] at hwalk hwalk'
      cases hnode : t.node? directory with
      | none => simp [hnode] at hwalk
      | some node =>
          cases node with
          | file _ _ | program _ _ => simp [hnode] at hwalk
          | directory =>
              simp only [hnode, hdot, hup, if_false] at hwalk hwalk'
              have hplace : place = directory ++ [name] := by
                split at hwalk'
                · cases hwalk'
                · exact (Except.ok.inj hwalk').symm
              subst hplace
              split at hwalk
              · -- the last part is a dot or empty
                simp at hwalk
              · split at hwalk
                · -- the last part goes up
                  have hlength := congrArg List.length (Except.ok.inj hwalk)
                  simp at hlength
                · split at hwalk
                  · cases hwalk
                  · have hlast := List.append_cancel_left (Except.ok.inj hwalk)
                    exact hne (List.cons.inj hlast).1.symm

/-- A finished file leaves the path beside the output for the output path. -/
theorem Stores.rename {t t' t'' : FileTree} {path : String} {data : Bytes}
    (stores : Stores t (path ++ ".part") data t')
    (h : t'.rename (path ++ ".part") path = .ok t'') :
    AgreesBut [path, path ++ ".part"] t t'' ∧ (∃ mode, t''.stat path = .ok (.file data mode)) ∧
      t''.stat (path ++ ".part") = .error .noEntry := by
  have same := stores.sameDirectories
  obtain ⟨old, new, node, hold, hnew, hnode, hfree, rfl⟩ := exists_move_of_rename h
  cases stores with
  | @mk part mode names free hdirectory hnodes =>
      -- the path beside the output names one place in all trees
      obtain rfl : old = part :=
        Except.ok.inj ((same.symm.names hold).locate_eq.symm.trans names.locate_eq)
      have htarget : t.locate path = .ok new := (same.symm.names hnew).locate_eq
      have hne : new ≠ old := by
        rintro rfl
        exact locate_part_ne htarget names.locate_eq
      rw [hnodes, if_pos rfl, Option.some.injEq] at hnode
      subst hnode
      have hmoved : ∀ place, ((t'.drop old).put new (.file data mode)).node? place =
          if place = new then some (.file data mode)
          else if place = old then none else t.node? place := by
        intro place
        rw [node?_put _ hnew.ne_nil, node?_drop _ hold.ne_nil, hnodes]
        split
        · rfl
        · split <;> rfl
      have same' : SameDirectories t ((t'.drop old).put new (.file data mode)) := by
        refine ⟨hdirectory, fun place => ?_⟩
        rw [hmoved]
        split
        · next hplace =>
            subst hplace
            rw [hnodes, if_neg hne] at hfree
            simp [hfree]
        · split
          · next hplace =>
              subst hplace
              simp [free]
          · exact Iff.rfl
      refine ⟨⟨same', fun place elsewhere => ?_⟩, ⟨mode, ?_⟩, ?_⟩
      · rw [hmoved, if_neg, if_neg]
        · rintro rfl
          exact elsewhere _ (by simp) names.locate_eq
        · rintro rfl
          exact elsewhere _ (by simp) htarget
      · rw [stat_eq_ok_iff]
        exact ⟨new, same'.locate_eq htarget, by rw [hmoved, if_pos rfl]⟩
      · simp only [stat, same'.locate_eq names.locate_eq, hmoved, Ne.symm hne, if_false, if_true]

end FileTree

/-! ## Refused transfers -/

/-- A granted request is decided by the tree. -/
theorem Medium.of_grant {α : Type} {refusal : Option IoError} {decided : Except IoError α} {a : α}
    (h : grant refusal decided = .ok a) : decided = .ok a := by
  cases refusal with
  | none => exact h
  | some e => cases h

/-! ## Frames in the file -/

namespace FileSink

/-- The file of `s` was opened: it holds `stored`, and `last` buffers what it does not hold yet. Of
the medium only the answers to writes are used up. -/
structure Opens (s : FileSink) (stored : Bytes) (last : FileSink) : Prop where
  path_eq : last.path = s.path
  keepPartial_eq : last.keepPartial = s.keepPartial
  medium_eq : last.medium = { s.medium with writes := last.medium.writes }
  isOpen : last.buffer.isSome = true
  stores : s.tree.Stores s.partPath stored last.tree

theorem Opens.partPath_eq {s last : FileSink} {stored : Bytes} (h : Opens s stored last) :
    last.partPath = s.partPath := by
  rw [partPath, partPath, h.path_eq]

theorem Opens.flush_eq {s last : FileSink} {stored : Bytes} (h : Opens s stored last) :
    last.medium.flush = s.medium.flush := by
  rw [h.medium_eq]

theorem opens_of_create {s next : FileSink} (h : s.create = .ok next) :
    Opens s [] next ∧ next.pending = [] ∧ next.medium = s.medium := by
  rw [create] at h
  cases hmedium : s.medium.create with
  | some e => simp [Medium.grant, hmedium, Except.map] at h
  | none =>
      cases hcreate : s.tree.create s.partPath with
      | error e => simp [Medium.grant, hmedium, hcreate, Except.map] at h
      | ok tree =>
          simp only [Medium.grant, hmedium, hcreate, Except.map, Except.ok.injEq] at h
          subst h
          exact ⟨⟨rfl, rfl, rfl, rfl, FileTree.stores_of_create hcreate⟩, rfl, rfl⟩

theorem Opens.opened_eq {s last : FileSink} {stored : Bytes} (h : Opens s stored last) :
    last.opened = .ok last := by
  obtain ⟨buffer, hbuffer⟩ := Option.isSome_iff_exists.1 h.isOpen
  rw [opened, hbuffer]

/-- A write goes to the open file. -/
theorem write_of_opened {s file : FileSink} (h : s.opened = .ok file) (frame : Frame) :
    (Sink.write frame s).result = (file.take frame).2.mapError .io ∧
      (Sink.write frame s).state = (file.take frame).1 := by
  have hwrite : Sink.write frame s = FileSink.write frame s := rfl
  rw [hwrite, FileSink.write, h]
  exact ⟨rfl, rfl⟩

/-- A granted write goes to the buffer. -/
theorem Opens.take {s last : FileSink} {stored : Bytes} (h : Opens s stored last) (frame : Frame)
    (granted : last.medium.nextWrite = none) :
    (last.take frame).2 = .ok () ∧ Opens s stored (last.take frame).1 ∧
      (last.take frame).1.pending = last.pending ++ frame.data ∧
      (last.take frame).1.medium = last.medium.wrote ∧
      (last.take frame).1.tree = last.tree := by
  have htake : last.take frame = ({ last with
      medium := last.medium.wrote
      buffer := some (frame.data :: last.buffer.getD [])
      bytesWritten := last.bytesWritten + frame.size }, .ok ()) := by
    rw [FileSink.take, granted]
  have hmedium : last.medium.wrote = { s.medium with writes := last.medium.wrote.writes } := by
    rw [Medium.wrote, h.medium_eq]
  rw [htake]
  refine ⟨rfl, ⟨h.path_eq, h.keepPartial_eq, hmedium, rfl, h.stores⟩, ?_, rfl, rfl⟩
  simp [pending]

/-- A refused write leaves a part of the buffer and the frame in the file, and a part buffered. -/
theorem Opens.take_refused {s last : FileSink} {stored : Bytes} (h : Opens s stored last)
    (frame : Frame) {short : Shortfall} (refused : last.medium.nextWrite = some short) :
    (last.take frame).2 = .error short.error ∧
      Opens s (stored ++ short.toFile (last.pending ++ frame.data)) (last.take frame).1 ∧
      (last.take frame).1.pending = short.toBuffer (last.pending ++ frame.data) := by
  have htake : last.take frame = ({ last with
      medium := last.medium.wrote
      tree := last.tree.append last.partPath (short.toFile (last.pending ++ frame.data))
      buffer := some [short.toBuffer (last.pending ++ frame.data)] }, .error short.error) := by
    rw [FileSink.take, refused]
    rfl
  have hmedium : last.medium.wrote = { s.medium with writes := last.medium.wrote.writes } := by
    rw [Medium.wrote, h.medium_eq]
  rw [htake]
  refine ⟨rfl, ⟨h.path_eq, h.keepPartial_eq, hmedium, rfl, ?_⟩, ?_⟩
  · rw [h.partPath_eq]
    exact h.stores.append _
  · simp [pending]

/-- A sink with an open file buffers the frames it takes. -/
theorem Opens.takes {s middle last : FileSink} {stored : Bytes} {frames : List Frame}
    (h : Opens s stored middle) (takes : Sink.Takes middle frames last) :
    Opens s stored last ∧ last.pending = middle.pending ++ frames.flatMap Frame.data ∧
      last.medium.writes = middle.medium.writes.drop frames.length ∧ last.tree = middle.tree := by
  induction takes with
  | nil middle => exact ⟨h, by simp, by simp, rfl⟩
  | @cons middle last frame frames taken rest ih =>
      obtain ⟨hresult, hstate⟩ := write_of_opened h.opened_eq frame
      cases hnext : middle.medium.nextWrite with
      | some short =>
          rw [hresult, (h.take_refused frame hnext).1] at taken
          cases taken
      | none =>
          obtain ⟨-, opens, hpending, hmedium, htree⟩ := h.take frame hnext
          rw [hstate] at ih
          obtain ⟨opens', hpending', hwrites, htree'⟩ := ih opens
          refine ⟨opens', ?_, ?_, htree'.trans htree⟩
          · rw [hpending', hpending, List.flatMap_cons, List.append_assoc]
          · rw [hwrites, hmedium, Medium.wrote, List.length_cons, List.drop_tail]

/-- The state of a sink, closed at first, after `frames` were written to it and then `refused`, one
frame at most, was refused. -/
inductive Filled (s : FileSink) (frames refused : List Frame) : FileSink → Prop where
  | fresh (empty : frames = []) : Filled s frames refused s
  | begun {stored : Bytes} {last : FileSink} (opens : Opens s stored last)
      (sublist : (stored ++ last.pending).Sublist ((frames ++ refused).flatMap Frame.data))
      (whole : s.medium.writes[frames.length]?.join = none →
        stored = [] ∧ last.pending = frames.flatMap Frame.data) : Filled s frames refused last

/-- The first frame opens the file. -/
theorem takes_cases {s last : FileSink} {frames : List Frame} (h : Sink.Takes s frames last)
    (closed : s.buffer = none) :
    (frames = [] ∧ last = s) ∨ frames ≠ [] ∧ ∃ file, s.create = .ok file ∧
      Sink.Takes file frames last := by
  cases h with
  | nil => exact .inl ⟨rfl, rfl⟩
  | @cons _ _ frame frames taken rest =>
      have hopened : s.opened = s.create := by rw [opened, closed]
      cases hcreate : s.create with
      | error e =>
          have hwrite : Sink.write frame s = FileSink.write frame s := rfl
          rw [hwrite, FileSink.write, hopened, hcreate] at taken
          cases taken
      | ok file =>
          -- the same write to the file that is open now
          obtain ⟨hresult, hstate⟩ := write_of_opened (hopened.trans hcreate) frame
          obtain ⟨hresult', hstate'⟩ := write_of_opened (opens_of_create hcreate).1.opened_eq frame
          refine .inr ⟨List.cons_ne_nil _ _, file, rfl, .cons ?_ ?_⟩
          · rw [hresult', ← hresult]
            exact taken
          · rw [hstate', ← hstate]
            exact rest

/-- The file and the buffer of a sink that was closed and took frames. -/
theorem opens_of_takes {s last : FileSink} {frames : List Frame} (h : Sink.Takes s frames last)
    (closed : s.buffer = none) :
    (frames = [] ∧ last = s) ∨ Opens s [] last ∧ last.pending = frames.flatMap Frame.data ∧
      last.medium.writes = s.medium.writes.drop frames.length := by
  rcases takes_cases h closed with unchanged | ⟨-, file, hcreate, takes⟩
  · exact .inl unchanged
  · obtain ⟨opens, hpending, hmedium⟩ := opens_of_create hcreate
    obtain ⟨opens', hpending', hwrites, -⟩ := opens.takes takes
    refine .inr ⟨opens', ?_, ?_⟩
    · rw [hpending', hpending, List.nil_append]
    · rw [hwrites, hmedium]

/-- The bytes of the frames that the part file of a closed sink holds; `none` where it was never
opened. -/
inductive Remnant (m : Medium) (frames refused : List Frame) : Option Bytes → Prop where
  | untouched (empty : frames = []) : Remnant m frames refused none
  | file {data : Bytes} (sublist : data.Sublist ((frames ++ refused).flatMap Frame.data))
      (whole : m.writes[frames.length]?.join = none → m.flush = none →
        data = frames.flatMap Frame.data) : Remnant m frames refused (some data)

/-- A closed sink whose part file holds the bytes `held`. -/
structure Rests (s : FileSink) (held : Option Bytes) (last : FileSink) : Prop where
  path_eq : last.path = s.path
  keepPartial_eq : last.keepPartial = s.keepPartial
  medium_eq : last.medium = { s.medium with writes := last.medium.writes }
  closed : last.buffer = none
  content : held.elim (last.tree = s.tree) fun data => s.tree.Stores s.partPath data last.tree

theorem Rests.partPath_eq {s last : FileSink} {held : Option Bytes} (h : Rests s held last) :
    last.partPath = s.partPath := by
  rw [partPath, partPath, h.path_eq]

theorem Rests.agreesBut {s last : FileSink} {held : Option Bytes} (h : Rests s held last) :
    s.tree.AgreesBut [s.partPath] last.tree := by
  have content := h.content
  cases held with
  | none =>
      have same : last.tree = s.tree := content
      rw [same]
      exact .refl _ _
  | some data => exact FileTree.Stores.agreesBut content

theorem rests_of_closed {s : FileSink} (closed : s.buffer = none) : Rests s none s :=
  ⟨rfl, rfl, rfl, closed, rfl⟩

theorem flush_of_closed {s : FileSink} (closed : s.buffer = none) : s.flush = (s, .ok ()) := by
  rw [flush, closed]

/-- A flush writes the buffer to the file, all of it where it succeeds. -/
theorem Opens.flush {s last : FileSink} {stored : Bytes} (h : Opens s stored last) :
    ∃ data, Rests s (some (stored ++ data)) last.flush.1 ∧ data.Sublist last.pending ∧
      (s.medium.flush = none → last.flush.2 = .ok ()) ∧
      (last.flush.2 = .ok () → data = last.pending) := by
  obtain ⟨buffer, hbuffer⟩ := Option.isSome_iff_exists.1 h.isOpen
  have hstores : ∀ data, s.tree.Stores s.partPath (stored ++ data)
      (last.tree.append last.partPath data) := by
    intro data
    rw [h.partPath_eq]
    exact h.stores.append data
  cases hrefusal : last.medium.flush with
  | none =>
      have hflush : last.flush = ({ last.store last.pending with buffer := none }, .ok ()) := by
        rw [FileSink.flush, hbuffer, hrefusal]
      rw [hflush]
      exact ⟨last.pending, ⟨h.path_eq, h.keepPartial_eq, h.medium_eq, rfl, hstores _⟩,
        .refl _, fun _ => rfl, fun _ => rfl⟩
  | some short =>
      have hflush : last.flush = ({ last.store (short.toFile last.pending) with buffer := none },
          .error short.error) := by
        rw [FileSink.flush, hbuffer, hrefusal]
      rw [hflush]
      refine ⟨short.toFile last.pending,
        ⟨h.path_eq, h.keepPartial_eq, h.medium_eq, rfl, hstores _⟩, List.take_sublist _ _, ?_, ?_⟩
      · intro granted
        rw [h.flush_eq, granted] at hrefusal
        cases hrefusal
      · intro succeeded
        cases succeeded

theorem Filled.flush {s last : FileSink} {frames refused : List Frame}
    (h : Filled s frames refused last) (closed : s.buffer = none) :
    ∃ held, Remnant s.medium frames refused held ∧ Rests s held last.flush.1 := by
  cases h with
  | fresh empty =>
      rw [flush_of_closed closed]
      exact ⟨none, .untouched empty, rests_of_closed closed⟩
  | begun opens sublist whole =>
      obtain ⟨data, rests, part, granted, all⟩ := opens.flush
      refine ⟨_, .file ((part.append_left _).trans sublist) fun hwrites hflush => ?_, rests⟩
      obtain ⟨rfl, hpending⟩ := whole hwrites
      rw [List.nil_append, all (granted hflush), hpending]

/-- The file of a commit: it is open, and the file and the buffer hold the data of all frames. -/
theorem opens_of_opened {s last file : FileSink} {frames : List Frame}
    (h : Sink.Takes s frames last) (closed : s.buffer = none) (hopened : last.opened = .ok file) :
    Opens s [] file ∧ file.pending = frames.flatMap Frame.data := by
  rcases opens_of_takes h closed with ⟨rfl, rfl⟩ | ⟨opens, hpending, -⟩
  · rw [opened, closed] at hopened
    obtain ⟨opens, hpending, -⟩ := opens_of_create hopened
    exact ⟨opens, hpending⟩
  · cases opens.opened_eq.symm.trans hopened
    exact ⟨opens, hpending⟩

/-- The cases of a commit: the file cannot be opened, its buffer cannot be written, or the file
holds the data of all frames, and syncing and renaming it decide. -/
theorem commit_cases {s last : FileSink} {frames : List Frame} (h : Sink.Takes s frames last)
    (closed : s.buffer = none) :
    (frames = [] ∧ ∃ e, s.create = .error e ∧
      Sink.commit last = { result := .error (.io e), state := s }) ∨
    (∃ next data e, Rests s (some data) next ∧ data.Sublist (frames.flatMap Frame.data) ∧
      s.medium.flush ≠ none ∧ Sink.commit last = { result := .error (.io e), state := next }) ∨
    (∃ next, Rests s (some (frames.flatMap Frame.data)) next ∧
      ((∃ e, Medium.grant s.medium.sync (Medium.grant s.medium.rename
            (next.tree.rename s.partPath s.path)) = .error e ∧
          Sink.commit last = { result := .error (.io e), state := next }) ∨
        (∃ tree lines, next.tree.rename s.partPath s.path = .ok tree ∧
          Sink.commit last = { result := .ok (), state := { next with tree }, lines }))) := by
  have hcommit : Sink.commit last = FileSink.commit last := rfl
  rw [hcommit, FileSink.commit]
  cases hopened : last.opened with
  | error e =>
      rcases opens_of_takes h closed with ⟨hempty, rfl⟩ | ⟨opens, -⟩
      · refine .inl ⟨hempty, e, ?_, rfl⟩
        rw [← hopened, opened, closed]
      · cases opens.opened_eq.symm.trans hopened
  | ok file =>
      obtain ⟨opens, hpending⟩ := opens_of_opened h closed hopened
      obtain ⟨data, rests, part, granted, all⟩ := opens.flush
      rw [List.nil_append] at rests
      simp only
      rcases hflush : file.flush with ⟨next, e | _⟩
      · rw [hflush] at rests granted
        refine .inr (.inl ⟨next, data, e, rests, hpending ▸ part, ?_, rfl⟩)
        intro hnone
        cases granted hnone
      · rw [hflush] at rests all
        have hdata : data = frames.flatMap Frame.data := (all rfl).trans hpending
        subst hdata
        refine .inr (.inr ⟨next, rests, ?_⟩)
        have hsync : next.medium.sync = s.medium.sync := by rw [rests.medium_eq]
        have hrefusal : next.medium.rename = s.medium.rename := by rw [rests.medium_eq]
        simp only
        rw [rests.partPath_eq, rests.path_eq, hsync, hrefusal]
        cases hdecided : Medium.grant s.medium.sync (Medium.grant s.medium.rename
            (next.tree.rename s.partPath s.path)) with
        | error e => exact .inl ⟨e, rfl, rfl⟩
        | ok tree => exact .inr ⟨tree, _, Medium.of_grant (Medium.of_grant hdecided), rfl⟩

/-- **A commit moves the part file to the path.** The path then leads to the data of all frames, the
part path to nothing, and the rest of the tree is unchanged. -/
theorem commit_of_takes {s last : FileSink} {frames : List Frame} (h : Sink.Takes s frames last)
    (closed : s.buffer = none) (taken : (Sink.commit last).result = .ok ()) :
    s.tree.AgreesBut [s.path, s.partPath] (Sink.commit last).state.tree ∧
      (∃ mode, (Sink.commit last).state.tree.stat s.path =
        .ok (.file (frames.flatMap Frame.data) mode)) ∧
      (Sink.commit last).state.tree.stat s.partPath = .error .noEntry := by
  rcases commit_cases h closed with ⟨-, e, -, hcommit⟩ | ⟨_, _, e, -, -, -, hcommit⟩ |
    ⟨next, rests, ⟨e, -, hcommit⟩ | ⟨tree, lines, hrename, hcommit⟩⟩
  · rw [hcommit] at taken
    cases taken
  · rw [hcommit] at taken
    cases taken
  · rw [hcommit] at taken
    cases taken
  · rw [hcommit]
    exact FileTree.Stores.rename rests.content hrename

/-- A commit on a medium that grants everything succeeds where files can be created at the path and
at the part path. -/
theorem commit_ok_of_takes {s last : FileSink} {frames : List Frame} {beside output : FileTree}
    (h : Sink.Takes s frames last) (closed : s.buffer = none) (granting : s.medium = {})
    (hpart : s.tree.create s.partPath = .ok beside) (hpath : s.tree.create s.path = .ok output) :
    (Sink.commit last).result = .ok () := by
  rcases commit_cases h closed with ⟨-, e, hcreate, -⟩ | ⟨_, _, _, -, -, hflush, -⟩ |
    ⟨next, rests, ⟨e, hrefused, -⟩ | ⟨tree, lines, -, hcommit⟩⟩
  · rw [create, granting, hpart] at hcreate
    cases hcreate
  · rw [granting] at hflush
    exact absurd rfl hflush
  · -- the part file is renamed within the tree it was written to
    have stores : s.tree.Stores s.partPath (frames.flatMap Frame.data) next.tree := rests.content
    have same := stores.sameDirectories
    obtain ⟨new, _, hnew, hfree, _⟩ := FileTree.exists_put_of_create hpath
    cases stores with
    | @mk place mode names free hdirectory hnodes =>
        have hthere : next.tree.node? place = some (.file (frames.flatMap Frame.data) mode) := by
          rw [hnodes, if_pos rfl]
        have hfree' : next.tree.node? new ≠ some .directory := mt (same.directory_iff new).1 hfree
        have hrename := FileTree.rename_of_names (same.names names) (same.names hnew) hthere
          (by simp) hfree'
        rw [granting, hrename] at hrefused
        cases hrefused
  · rw [hcommit]

/-- The tree after the commit of an open file depends on the bytes in its buffer, not on how they
are divided. -/
theorem commit_tree_congr {a b : FileSink} (isOpen : a.buffer.isSome = true)
    (isOpen' : b.buffer.isSome = true) (tree : a.tree = b.tree) (path : a.path = b.path)
    (pending : a.pending = b.pending)
    (medium : a.medium = { b.medium with writes := a.medium.writes }) :
    (Sink.commit a).state.tree = (Sink.commit b).state.tree := by
  obtain ⟨buffer, hbuffer⟩ := Option.isSome_iff_exists.1 isOpen
  obtain ⟨buffer', hbuffer'⟩ := Option.isSome_iff_exists.1 isOpen'
  have hflush : a.medium.flush = b.medium.flush := by rw [medium]
  have hsync : a.medium.sync = b.medium.sync := by rw [medium]
  have hrename : a.medium.rename = b.medium.rename := by rw [medium]
  have hcommit (s : FileSink) : Sink.commit s = FileSink.commit s := rfl
  simp only [hcommit, FileSink.commit, opened, hbuffer, hbuffer', FileSink.flush, hflush]
  cases b.medium.flush with
  | some short => simp only [store, partPath, tree, path, pending]
  | none =>
      simp only [store, partPath, tree, path, pending, hsync, hrename]
      cases Medium.grant b.medium.sync (Medium.grant b.medium.rename
          ((b.tree.append (b.path ++ ".part") b.pending).rename (b.path ++ ".part") b.path)) with
      | error e => rfl
      | ok moved => rfl

/-- The tree after a commit does not depend on how the bytes were divided into frames. -/
theorem commit_tree_eq {s last last' : FileSink} {frames frames' : List Frame}
    (h : Sink.Takes s frames last) (h' : Sink.Takes s frames' last') (closed : s.buffer = none)
    (begun : frames = [] ↔ frames' = [])
    (same : frames.flatMap Frame.data = frames'.flatMap Frame.data) :
    (Sink.commit last).state.tree = (Sink.commit last').state.tree := by
  rcases takes_cases h closed with ⟨hnone, rfl⟩ | ⟨hsome, file, hcreate, takes⟩
  · rcases takes_cases h' closed with ⟨-, rfl⟩ | ⟨hsome', -⟩
    · rfl
    · exact absurd (begun.1 hnone) hsome'
  · rcases takes_cases h' closed with ⟨hnone', -⟩ | ⟨-, file', hcreate', takes'⟩
    · exact absurd (begun.2 hnone') hsome
    · cases hcreate.symm.trans hcreate'
      obtain ⟨opened, -, -⟩ := opens_of_create hcreate
      obtain ⟨opens, hpending, -, htree⟩ := opened.takes takes
      obtain ⟨opens', hpending', -, htree'⟩ := opened.takes takes'
      apply commit_tree_congr opens.isOpen opens'.isOpen (htree.trans htree'.symm)
        (opens.path_eq.trans opens'.path_eq.symm)
      · rw [hpending, hpending', same]
      · rw [opens.medium_eq, opens'.medium_eq]

/-- The tree an abort leaves. -/
theorem abort_tree (s : FileSink) :
    (Sink.abort s).state.tree =
      if s.flush.1.keepPartial then s.flush.1.tree
      else (Medium.grant s.flush.1.medium.remove
        (s.flush.1.tree.removeFile s.flush.1.partPath)).toOption.getD s.flush.1.tree := by
  have habort : Sink.abort s = FileSink.abort s := rfl
  rw [habort, FileSink.abort]
  rcases s.flush with ⟨last, flushed⟩
  simp only
  split
  · rfl
  · cases hremove : Medium.grant last.medium.remove (last.tree.removeFile last.partPath) with
    | ok tree => rfl
    | error e => cases e <;> rfl

/-- **An abort changes nothing but the part file.** That file is gone, unless the medium refuses to
remove it; where partial output is kept, it stays as it is. -/
theorem Rests.abort {s last : FileSink} {held : Option Bytes} (h : Rests s held last.flush.1) :
    s.tree.AgreesBut [s.partPath] (Sink.abort last).state.tree ∧
    (s.keepPartial = false → s.medium.remove = none →
      ∀ node, (Sink.abort last).state.tree.stat s.partPath = .ok node → node = .directory) ∧
    (s.keepPartial = true → held.elim ((Sink.abort last).state.tree = s.tree) fun data =>
      ∃ mode, (Sink.abort last).state.tree.stat s.partPath = .ok (.file data mode)) := by
  have agrees := h.agreesBut
  have hrefusal : last.flush.1.medium.remove = s.medium.remove := by rw [h.medium_eq]
  rw [abort_tree, h.keepPartial_eq, h.partPath_eq, hrefusal]
  cases hkeep : s.keepPartial with
  | true =>
      refine ⟨agrees, fun hfalse => absurd hfalse (by simp), fun _ => ?_⟩
      have content := h.content
      cases held with
      | none => exact content
      | some data => exact FileTree.Stores.exists_stat content
  | false =>
      simp only [Bool.false_eq_true, if_false, false_implies, and_true]
      cases hremove : Medium.grant s.medium.remove (last.flush.1.tree.removeFile s.partPath) with
      | ok tree =>
          obtain ⟨agrees', hstat⟩ := agrees.removeFile (Medium.of_grant hremove)
          refine ⟨agrees', fun _ _ node hnode => ?_⟩
          cases hstat.symm.trans hnode
      | error cause =>
          -- the part path names its last part, so only a directory there is not removed
          refine ⟨agrees, fun _ granted node hnode => ?_⟩
          obtain ⟨place, hlocate, hthere⟩ := FileTree.stat_eq_ok_iff.1 hnode
          by_cases hfile : node = .directory
          · exact hfile
          · have hremoved := FileTree.removeFile_of_names (FileTree.names_part hlocate) hthere hfile
            rw [granted] at hremove
            cases hremove.symm.trans hremoved

end FileSink

end Transcode
