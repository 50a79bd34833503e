import Transcode.Proofs.CleanupSafety
import Transcode.Proofs.DateTexts
/-!
# Logs of different stems

The last dot in front of the ending divides a name into the stem and the date, since no date has a
dot. So the name made for a log is read with its own stem and no other
(`LogFile.eq_of_parse?_fileName`), whatever dots, digits or endings the stems contain. A clean-up
changes only the files whose names it reads as logs of its stem
(`Cleanup.runOrdered_leaves_foreign`), and logs of other stems are safe from it
(`LogFile.fileName_read_back_apart`). A stem with a slash is another matter: its logs have the names
of another stem (`LogFile.slashed_stem_shares_names`).
-/

set_option autoImplicit false

namespace Transcode

/-- Unique decomposition at the last dot. -/
theorem eq_of_last_dot {a b x y : List Char} (plain : '.' ∉ x) (plain' : '.' ∉ y)
    (same : a ++ '.' :: x = b ++ '.' :: y) : a = b ∧ x = y := by
  rcases List.append_eq_append_iff.1 same with ⟨between, rfl, hx⟩ | ⟨between, rfl, hy⟩
  · cases between with
    | nil =>
        cases hx
        exact ⟨(List.append_nil a).symm, rfl⟩
    | cons c cs =>
        cases hx
        exact absurd (List.mem_append_right cs List.mem_cons_self) plain
  · cases between with
    | nil =>
        cases hy
        exact ⟨List.append_nil b, rfl⟩
    | cons c cs =>
        cases hy
        exact absurd (List.mem_append_right cs List.mem_cons_self) plain'

theorem utf8Size_of_isDigit {c : Char} (digit : c.isDigit = true) : c.utf8Size = 1 := by
  have hsmall : c.val ≤ 57 := by simpa [Char.isDigit] using (Bool.and_eq_true_iff.1 digit).2
  exact Char.utf8Size_eq_one_iff.2 (UInt32.le_trans hsmall (by decide))

/-- A text of letters of one byte has as many bytes as letters. -/
theorem Utf8.length_encode_ofList {cs : List Char} (narrow : ∀ c ∈ cs, c.utf8Size = 1) :
    (encode (String.ofList cs)).length = cs.length := by
  have hone : ∀ c ∈ cs, (String.utf8EncodeChar c).length = 1 := by
    intro c hc
    rw [String.length_utf8EncodeChar, narrow c hc]
  rw [encode, String.toList_ofList, List.length_flatMap, List.map_congr_left hone,
    List.map_const', List.sum_replicate_nat, Nat.mul_one]

/-- Each letter of the text of a date takes one byte. -/
theorem Date.length_encode_text (date : Date) :
    (Utf8.encode (String.ofList date.text.toList)).length = date.text.toList.length := by
  apply Utf8.length_encode_ofList
  intro c hc
  rcases Date.cases_of_mem_text hc with hdigit | rfl | rfl
  · exact utf8Size_of_isDigit hdigit
  · rfl
  · rfl

namespace LogFile

variable {stem other : String} {date read : Date} {packed isPacked : Bool}

/-- The name of the log of a day, packed or not. -/
def fileName (stem : String) (date : Date) (packed : Bool) : String :=
  if packed then name stem date ++ ".gz" else name stem date

theorem toList_fileName (stem : String) (date : Date) (packed : Bool) :
    (fileName stem date packed).toList =
      stem.toList ++ '.' :: (date.text.toList ++ (ending packed).toList) := by
  cases packed <;> simp [fileName, name, ending]

/-- The name of a log is read with its own stem only, as what the text of its date is read as. -/
theorem eq_of_parse?_fileName
    (parsed : parse? stem (fileName other date packed) = some (read, isPacked)) :
    stem = other ∧ isPacked = packed ∧ date.text.toList.length = 10 ∧
      Date.parse? date.text.toList = some read := by
  obtain ⟨middle, hname, hlength, hread⟩ := parse?_eq_some_iff.1 parsed
  have hassoc (front back ending : List Char) :
      front ++ '.' :: (back ++ ending) = (front ++ '.' :: back) ++ ending := by
    simp
  rw [toList_fileName, hassoc, hassoc] at hname
  obtain ⟨hfront, rfl⟩ := append_ending_inj hname
  obtain ⟨hstem, rfl⟩ :=
    eq_of_last_dot (Date.dot_not_mem_text date) (Date.dot_not_mem_of_parse? hread) hfront
  rw [Date.length_encode_text] at hlength
  exact ⟨(String.toList_injective hstem).symm, rfl, hlength, hread⟩

theorem parse?_fileName (valid : date.isValid = true) (bounds : 0 ≤ date.year ∧ date.year ≤ 9999) :
    parse? stem (fileName stem date packed) = some (date, packed) := by
  apply parse?_eq_some_iff.2
  refine ⟨date.text.toList, toList_fileName stem date packed, ?_, Date.parse?_text valid bounds⟩
  rw [Date.length_encode_text]
  exact (Date.length_text valid).2 bounds

/-- The name of a log whose year takes a sign is not read. -/
theorem parse?_fileName_of_signed (valid : date.isValid = true)
    (signed : ¬ (0 ≤ date.year ∧ date.year ≤ 9999)) :
    parse? stem (fileName other date packed) = none := by
  rw [Option.eq_none_iff_forall_ne_some]
  rintro ⟨read, isPacked⟩ hparsed
  obtain ⟨-, -, hlength, -⟩ := eq_of_parse?_fileName hparsed
  exact signed ((Date.length_text valid).1 hlength)

/-- The name of a log is not read with another stem. -/
theorem parse?_fileName_of_ne (apart : stem ≠ other) :
    parse? stem (fileName other date packed) = none := by
  rw [Option.eq_none_iff_forall_ne_some]
  rintro ⟨read, isPacked⟩ hparsed
  exact apart (eq_of_parse?_fileName hparsed).1

end LogFile

namespace Cleanup

open FileTree

variable {settings : LogSettings} {today : Date} {place : Location} {t : FileTree}

/-- The locations that a turn can change have names that are read as those of logs. -/
theorem Touches.exists_parse? {name other : String} {above : Location}
    (touches : Touches settings today place name (above ++ [other])) :
    ∃ log, LogFile.parse? settings.stem other = some log := by
  rcases touches with ⟨hfate, hother⟩ | ⟨⟨-, ⟨date, packed⟩, hlog, hpacked, -⟩, hother⟩
  · obtain rfl := List.singleton_inj.1 (List.append_inj' hother rfl).2
    rcases hfate with ⟨log, hlog, -⟩ | ⟨-, log, hlog, -⟩
    · exact ⟨log, hlog⟩
    · exact ⟨log, hlog⟩
  · -- the packed form of a log is read as the log is
    obtain rfl := List.singleton_inj.1 (List.append_inj' hother rfl).2
    subst hpacked
    exact ⟨(date, true), LogFile.parse?_packed_iff.2 hlog⟩

/-- A clean-up leaves every file whose name is not read as that of a log, wherever it stands and
however the clean-up ends. -/
theorem runOrdered_leaves_foreign (o : Occasion) {other : String}
    (listed : t.IsListed settings.directory place)
    (named : ∀ name ∈ o.listing t place, IsName name)
    (foreign : LogFile.parse? settings.stem other = none) (above : Location) :
    (runOrdered o settings t).1.node? (above ++ [other]) = t.node? (above ++ [other]) := by
  cases hcutoff : cutoff? settings o.today with
  | none => rw [runOrdered, listed.pathExists, if_pos rfl, hcutoff]
  | some cutoff =>
      obtain ⟨front, hkeeps⟩ := exists_keeps hcutoff listed named
      apply hkeeps.elsewhere
      rintro name - htouches
      obtain ⟨log, hlog⟩ := htouches.exists_parse?
      cases foreign.symm.trans hlog

/-- A clean-up makes and removes no directory. -/
theorem runOrdered_sameDirectories (o : Occasion) (listed : t.IsListed settings.directory place)
    (named : ∀ name ∈ o.listing t place, IsName name) :
    SameDirectories t (runOrdered o settings t).1 := by
  cases hcutoff : cutoff? settings o.today with
  | none =>
      rw [runOrdered, listed.pathExists, if_pos rfl, hcutoff]
      exact .refl t
  | some cutoff =>
      obtain ⟨front, hkeeps⟩ := exists_keeps hcutoff listed named
      exact hkeeps.directories

end Cleanup

/-! ## Paths of logs -/

namespace Path

variable {directory name : String}

/-- The last part of a path below a directory is the name. -/
theorem exists_cut_join (directory : String) (plain : '/' ∉ name.toList) :
    ∃ front, cut '/' (join directory name).toList = front ++ [name.toList] := by
  by_cases hdirectory : directory.toList = []
  · have hjoin : join directory name = name := by simp [join, hdirectory]
    obtain ⟨front, last, hcut, happend⟩ := cut_append plain []
    obtain ⟨hfront, hlast⟩ := List.append_inj' (show [] ++ [[]] = front ++ [last] from hcut) rfl
    refine ⟨front, ?_⟩
    rw [hjoin]
    rw [List.nil_append, ← List.singleton_inj.1 hlast, List.nil_append] at happend
    exact happend
  · obtain ⟨before, hjoin, -⟩ := exists_join hdirectory plain
    exact ⟨_, by rw [hjoin, cut_append_cons plain]⟩

/-- The file name of a path below a directory. -/
theorem fileName?_join (directory : String) (nonempty : name.toList ≠ [])
    (plain : '/' ∉ name.toList) (notDot : name.toList ≠ ['.']) (notUp : name.toList ≠ ['.', '.']) :
    fileName? '/' '.' (join directory name).toList = some name.toList := by
  obtain ⟨front, hcut⟩ := exists_cut_join directory plain
  simp [fileName?, components, hcut, List.filter_append, nonempty, notDot, notUp]

end Path

namespace FileTree

variable {t : FileTree} {directory name : String}

/-- A path below a directory leads to an entry of that name. -/
theorem exists_concat_of_locate_join {place : Location} (nonempty : name.toList ≠ [])
    (plain : '/' ∉ name.toList) (notDot : name ≠ ".") (notUp : name ≠ "..")
    (leads : t.locate (Path.join directory name) = .ok place) :
    ∃ above, place = above ++ [name] := by
  obtain ⟨front, hcut⟩ := Path.exists_cut_join directory plain
  unfold locate at leads
  split at leads
  · cases leads
  · rw [parts, hcut, List.map_append, List.map_singleton, if_neg nonempty, String.ofList_toList,
      walk_append] at leads
    cases hwalk : t.walk (t.start (Path.join directory name))
      (front.map fun w => if w = [] then "." else String.ofList w) with
    | error e =>
        rw [hwalk] at leads
        cases leads
    | ok above =>
        simp only [hwalk, Except.bind, walk, notDot, notUp, if_false] at leads
        split at leads
        · cases leads
        · split at leads <;> cases leads
          exact ⟨above, rfl⟩
        · cases leads

end FileTree

namespace LogFile

open FileTree

variable {stem : String} {date : Date} {packed : Bool}

/-- The path of the log of a day, packed or not. -/
def filePath (directory stem : String) (date : Date) (packed : Bool) : String :=
  if packed then path directory stem date ++ ".gz" else path directory stem date

theorem two_lt_length_fileName (stem : String) (date : Date) (packed : Bool) :
    2 < (fileName stem date packed).toList.length := by
  rw [toList_fileName]
  cases packed <;> simp [ending] <;> omega

theorem filePath_eq (directory stem : String) (date : Date) (packed : Bool) :
    filePath directory stem date packed = Path.join directory (fileName stem date packed) := by
  cases packed with
  | false => rfl
  | true =>
      have hnonempty : (name stem date).toList ≠ [] := by
        intro hempty
        have hlength := two_lt_length_fileName stem date false
        simp [fileName, hempty] at hlength
      exact (Path.join_append ".gz" hnonempty).symm

/-- A slash in the name of a log is one in its stem. -/
theorem unslashed_fileName (plain : '/' ∉ stem.toList) (date : Date) (packed : Bool) :
    '/' ∉ (fileName stem date packed).toList := by
  have hending : '/' ∉ (ending packed).toList := by cases packed <;> decide
  have htext : '/' ∉ date.text.toList := by
    intro hmem
    rcases Date.cases_of_mem_text hmem with hdigit | heq | heq
    · exact absurd hdigit (by decide)
    · exact absurd heq (by decide)
    · exact absurd heq (by decide)
  rw [toList_fileName, List.mem_append, List.mem_cons, List.mem_append]
  rintro (h | h | h | h)
  · exact plain h
  · exact absurd h (by decide)
  · exact htext h
  · exact hending h

/-- **Names of logs are read back, and stems without a slash do not interfere.** The file name of
the path made for a log, packed or not, is read as its date if the year is one of 0 to 9999, and not
at all otherwise. With another stem it is not read, and a clean-up for that stem leaves the log as
it is. -/
theorem fileName_read_back_apart (stem : String) (plain : '/' ∉ stem.toList) (directory : String)
    (date : Date) (valid : date.isValid = true) (packed : Bool) :
    ∃ name : String,
      Path.fileName? '/' '.' (filePath directory stem date packed).toList = some name.toList ∧
      (0 ≤ date.year ∧ date.year ≤ 9999 → parse? stem name = some (date, packed)) ∧
      (¬ (0 ≤ date.year ∧ date.year ≤ 9999) → parse? stem name = none) ∧
      ∀ other, other ≠ stem → parse? other name = none ∧
        ∀ (o : Cleanup.Occasion) (settings : LogSettings) (t : FileTree) (place : Location),
          settings.stem = other → t.IsListed settings.directory place →
          (∀ name ∈ o.listing t place, IsName name) →
          ∀ node, (Cleanup.runOrdered o settings t).1.stat (filePath directory stem date packed) =
              .ok node ↔ t.stat (filePath directory stem date packed) = .ok node := by
  have hlength := two_lt_length_fileName stem date packed
  have hunslashed := unslashed_fileName plain date packed
  have hnonempty : (fileName stem date packed).toList ≠ [] := by
    intro hempty
    simp [hempty] at hlength
  have hdot : (fileName stem date packed).toList ≠ ['.'] := by
    intro hdot
    simp [hdot] at hlength
  have hup : (fileName stem date packed).toList ≠ ['.', '.'] := by
    intro hup
    simp [hup] at hlength
  refine ⟨fileName stem date packed, ?_, parse?_fileName valid, parse?_fileName_of_signed valid, ?_⟩
  · rw [filePath_eq]
    exact Path.fileName?_join directory hnonempty hunslashed hdot hup
  · intro other hapart
    have hforeign : parse? other (fileName stem date packed) = none := parse?_fileName_of_ne hapart
    refine ⟨hforeign, ?_⟩
    rintro o settings t place rfl listed named node
    have same := Cleanup.runOrdered_sameDirectories o listed named
    rw [filePath_eq, stat_eq_ok_iff, stat_eq_ok_iff]
    -- the path leads to an entry of a name that is not read, before and after
    have hnode {found : Location} {u : FileTree}
        (leads : u.locate (Path.join directory (fileName stem date packed)) = .ok found) :
        (Cleanup.runOrdered o settings t).1.node? found = t.node? found := by
      obtain ⟨above, rfl⟩ := exists_concat_of_locate_join hnonempty hunslashed
        (fun h => hdot (by rw [h]; rfl)) (fun h => hup (by rw [h]; rfl)) leads
      exact Cleanup.runOrdered_leaves_foreign o listed named hforeign above
    constructor
    · rintro ⟨found, hlocate, hthere⟩
      exact ⟨found, same.symm.locate_eq hlocate, (hnode hlocate).symm.trans hthere⟩
    · rintro ⟨found, hlocate, hthere⟩
      exact ⟨found, same.locate_eq hlocate, (hnode hlocate).trans hthere⟩

/-- Expired logs of two stems, one of which begins with the other. -/
def sharedLogs : FileTree where
  nodes := [(["logs"], .directory), (["logs", "tcode.2026-03-01.log"], .file [1] 0o644),
    (["logs", "tcode-cli.2026-03-01.log"], .file [2] 0o644)]

theorem isListed_shared : sharedLogs.IsListed Cleanup.sampleSettings.directory ["logs"] := by
  refine ⟨rfl, rfl, ?_, ?_⟩
  · have hall : ∀ name ∈ sharedLogs.namesIn ["logs"], IsName name := by decide +kernel
    intro name hname
    exact hall name (mem_namesIn.2 hname)
  · unfold IsDistinct
    decide +kernel

/-- An occasion on which the logs of both stems are listed. -/
def sharedOccasion : Cleanup.Occasion where
  today := Cleanup.sampleDay
  pack := Gzip.pack
  arrange _ := ["tcode.2026-03-01.log", "tcode-cli.2026-03-01.log"]

/-- The log of the longer stem is read with that alone and stays, and a log of the year 10000 is not
read. -/
theorem fileName_read_back_apart_shared :
    parse? "tcode-cli" "tcode-cli.2026-03-01.log" = some (⟨2026, 3, 1⟩, false) ∧
    parse? "tcode" "tcode-cli.2026-03-01.log" = none ∧
    (Cleanup.runOrdered sharedOccasion Cleanup.sampleSettings sharedLogs).1.stat
      "logs/tcode-cli.2026-03-01.log" = .ok (.file [2] 0o644) ∧
    parse? "tcode" "tcode.+10000-01-01.log.gz" = none := by
  have hpath : filePath "logs" "tcode-cli" ⟨2026, 3, 1⟩ false =
      "logs/tcode-cli.2026-03-01.log" := by
    decide +kernel
  have hpath' : filePath "logs" "tcode" ⟨10000, 1, 1⟩ true = "logs/tcode.+10000-01-01.log.gz" := by
    decide +kernel
  obtain ⟨name, hname, hread, -, hapart⟩ :=
    fileName_read_back_apart "tcode-cli" (by decide) "logs" ⟨2026, 3, 1⟩ (by decide) false
  obtain ⟨name', hname', -, hsigned, -⟩ :=
    fileName_read_back_apart "tcode" (by decide) "logs" ⟨10000, 1, 1⟩ (by decide) true
  rw [hpath] at hname hapart
  rw [hpath'] at hname'
  have hfound : Path.fileName? '/' '.' "logs/tcode-cli.2026-03-01.log".toList =
      some "tcode-cli.2026-03-01.log".toList := by decide +kernel
  have hfound' : Path.fileName? '/' '.' "logs/tcode.+10000-01-01.log.gz".toList =
      some "tcode.+10000-01-01.log.gz".toList := by decide +kernel
  obtain rfl := String.toList_injective (Option.some.inj (hname.symm.trans hfound))
  obtain rfl := String.toList_injective (Option.some.inj (hname'.symm.trans hfound'))
  obtain ⟨hforeign, hkept⟩ := hapart "tcode" (by decide)
  refine ⟨hread (by decide), hforeign, ?_, hsigned (by decide)⟩
  exact (hkept sharedOccasion Cleanup.sampleSettings sharedLogs ["logs"] rfl isListed_shared
    (by decide +kernel) _).2 rfl

/-- With the stem `./tcode`, the path made for a log has the file name of a log of the stem `tcode`:
it is not read back, and a clean-up for the other stem removes the file. -/
theorem slashed_stem_shares_names :
    "./tcode" ≠ "tcode" ∧
    Path.fileName? '/' '.' (filePath "logs" "./tcode" ⟨2026, 3, 1⟩ false).toList =
      some "tcode.2026-03-01.log".toList ∧
    parse? "./tcode" "tcode.2026-03-01.log" = none ∧
    parse? "tcode" "tcode.2026-03-01.log" = some (⟨2026, 3, 1⟩, false) ∧
    (sharedLogs.stat (filePath "logs" "./tcode" ⟨2026, 3, 1⟩ false)).isOk = true ∧
    ((Cleanup.runOrdered sharedOccasion Cleanup.sampleSettings sharedLogs).1.stat
      (filePath "logs" "./tcode" ⟨2026, 3, 1⟩ false)).isOk = false := by
  refine ⟨by decide, by decide +kernel, by decide +kernel, by decide +kernel, by decide +kernel,
    by decide +kernel⟩

end LogFile

end Transcode
