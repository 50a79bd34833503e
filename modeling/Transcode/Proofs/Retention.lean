import Transcode.Proofs.Calendar
import Transcode.Proofs.DateSpellings
/-!
# The first day that is kept

A clean-up keeps the logs from a certain day on, which it finds by counting back from today.
`Cleanup.runFrom` is the clean-up with that day given as a date, and with dates compared as dates.
Where the calendar has the day, a clean-up is the one from that day on, whatever the retention is;
where it does not, the clean-up ends before it has looked at anything
(`Cleanup.runOrdered_counts_back`).
-/

set_option autoImplicit false

namespace Transcode

theorem LogFile.isValid_of_parse? {stem name : String} {date : Date} {packed : Bool}
    (read : parse? stem name = some (date, packed)) : date.isValid = true :=
  (parse?_iff_spells.1 read).1

namespace Cleanup

variable {pack : Bytes → Bytes} {settings : LogSettings} {today first : Date}
  {name path directory : String} {choose : String → Action} {s s' : State} {t : FileTree}
  {e : CleanupError} {o : Occasion}

/-! ## Clean-ups from a day on -/

/-- The action chosen for an entry of this name, where logs are kept from a day on. -/
def actionFrom (settings : LogSettings) (today first : Date) (name : String) : Action :=
  match LogFile.parse? settings.stem name with
  | none => .leave
  | some (date, packed) =>
      if date.Before first then .remove
      else if settings.compressHistory = true ∧ packed = false ∧ date.Before today then .compress
      else .leave

/-- The clean-up that keeps the logs from a day on. -/
def runFrom (o : Occasion) (settings : LogSettings) (first : Date) (t : FileTree) :
    FileTree × Except CleanupError CleanupReport :=
  sweep o settings.directory (actionFrom settings o.today first) t

/-- The numbers of days are ordered as the dates are. -/
theorem action_eq_actionFrom (today_valid : today.isValid = true)
    (first_valid : first.isValid = true) :
    action settings today first.dayNumber = actionFrom settings today first := by
  funext name
  unfold action actionFrom
  cases hread : LogFile.parse? settings.stem name with
  | none => rfl
  | some log =>
      obtain ⟨date, packed⟩ := log
      have hvalid := LogFile.isValid_of_parse? hread
      simp only [Date.before_iff_dayNumber_lt hvalid first_valid,
        Date.before_iff_dayNumber_lt hvalid today_valid, Bool.and_eq_true, Bool.not_eq_true',
        decide_eq_true_eq, and_assoc]

/-! ## The retention -/

/-- Outside the calendar there is no first day to be kept. -/
theorem cutoff?_eq_none (today_there : today.Representable)
    (beyond : ¬ (today.back settings.retentionDays).Representable) :
    cutoff? settings today = none := by
  rw [Date.representable_back_iff today_there.valid] at beyond
  rw [cutoff?, if_neg]
  exact fun hboth => beyond hboth.2

/-- Within the calendar there is one: no two of its days are as far apart as a retention would have
to be that cannot be counted. -/
theorem cutoff?_eq_some (today_there : today.Representable)
    (first_there : (today.back settings.retentionDays).Representable) :
    cutoff? settings today = some (today.back settings.retentionDays).dayNumber := by
  have hnumber := (Date.dayNumber_back today_there.valid settings.retentionDays).2
  have hfirst := (Date.inCalendar_iff first_there.valid).2 first_there
  rw [hnumber] at hfirst ⊢
  exact cutoff?_eq ((Date.inCalendar_iff today_there.valid).2 today_there) hfirst

/-- No action fails because of the calendar. -/
theorem perform_ne_beyondCalendar (action : Action)
    (failed : perform pack s path action = (s', .error e)) : e ≠ .beyondCalendar := by
  cases action with
  | leave => cases failed
  | remove =>
      simp only [perform, remove] at failed
      split at failed <;> cases failed
      simp
  | compress =>
      simp only [perform, compress] at failed
      repeat' split at failed
      all_goals
        cases failed
        try simp

theorem step_ne_beyondCalendar (failed : step pack directory choose s name = (s', .error e)) :
    e ≠ .beyondCalendar := by
  unfold step at failed
  split at failed
  · cases failed
    simp
  · exact perform_ne_beyondCalendar _ failed

theorem steps_ne_beyondCalendar {names : List String}
    (failed : steps pack directory choose s names = (s', .error e)) : e ≠ .beyondCalendar := by
  induction names generalizing s with
  | nil => cases failed
  | cons name rest ih =>
      rw [steps] at failed
      split at failed
      · next hfirst =>
          cases failed
          exact step_ne_beyondCalendar hfirst
      · exact ih failed

theorem sweep_ne_beyondCalendar (o : Occasion) (directory : String) (choose : String → Action)
    (t : FileTree) : (sweep o directory choose t).2 ≠ .error .beyondCalendar := by
  unfold sweep
  split
  · simp
  · split
    · next hfailed => simpa using steps_ne_beyondCalendar hfailed
    · split <;> simp

/-- **A clean-up counts back from today, as far as the calendar goes.** Without a log directory
there is nothing to do, whatever the retention is. With one, the clean-up ends for the calendar if
and only if the day so many days before today is not in it, and then nothing has been touched;
otherwise it is the clean-up that keeps the logs from just that day on. -/
theorem runOrdered_counts_back (o : Occasion) (settings : LogSettings) (t : FileTree)
    (today_there : o.today.Representable) :
    (t.pathExists settings.directory = false → runOrdered o settings t = (t, .ok {})) ∧
    (t.pathExists settings.directory = true →
      ((runOrdered o settings t).2 = .error .beyondCalendar ↔
        ¬ (o.today.back settings.retentionDays).Representable) ∧
      (¬ (o.today.back settings.retentionDays).Representable →
        (runOrdered o settings t).1 = t) ∧
      ((o.today.back settings.retentionDays).Representable →
        runOrdered o settings t =
          runFrom o settings (o.today.back settings.retentionDays) t)) := by
  constructor
  · -- the directory is looked for before the day is counted
    intro hmissing
    rw [runOrdered, hmissing]
    rfl
  · intro hthere
    have hbeyond (h : ¬ (o.today.back settings.retentionDays).Representable) :
        runOrdered o settings t = (t, .error .beyondCalendar) := by
      rw [runOrdered, hthere, cutoff?_eq_none today_there h]
      rfl
    have hfrom (h : (o.today.back settings.retentionDays).Representable) :
        runOrdered o settings t =
          runFrom o settings (o.today.back settings.retentionDays) t := by
      rw [runOrdered, hthere, cutoff?_eq_some today_there h]
      simp only [action_eq_actionFrom today_there.valid h.valid]
      rfl
    refine ⟨⟨?_, fun h => by rw [hbeyond h]⟩, fun h => by rw [hbeyond h], hfrom⟩
    intro hended hrepresentable
    rw [hfrom hrepresentable] at hended
    exact sweep_ne_beyondCalendar _ _ _ _ hended

/-- The longest retentions lead out of the calendar in either direction. With one of minus forty
days, the logs are kept from the day forty days ahead on. -/
theorem runOrdered_counts_back_extremes :
    sampleDay.Representable ∧
      (∀ days ∈ [9223372036854775807, -9223372036854775808],
        runOrdered (plainOccasion sampleDay) { retentionDays := days } sampleLogs =
          (sampleLogs, .error .beyondCalendar)) ∧
      runOrdered (plainOccasion sampleDay) { retentionDays := -40 } sampleLogs =
        runFrom (plainOccasion sampleDay) { retentionDays := -40 } ⟨2026, 4, 29⟩ sampleLogs ∧
      runOrdered (plainOccasion sampleDay)
          { directory := "old", retentionDays := 9223372036854775807 } sampleLogs =
        (sampleLogs, .ok {}) := by
  have hsample : sampleDay.Representable := ⟨by decide, by decide⟩
  have hthere : sampleLogs.pathExists "logs" = true := isListed_sample.pathExists
  refine ⟨hsample, ?_, ?_, ?_⟩
  · intro days hdays
    have hbeyond : ¬ (sampleDay.back days).Representable := by
      rw [Date.representable_back_iff hsample.valid]
      revert days
      decide +kernel
    obtain ⟨hended, huntouched, -⟩ := (runOrdered_counts_back (plainOccasion sampleDay)
      { retentionDays := days } sampleLogs hsample).2 hthere
    exact Prod.ext (huntouched hbeyond) (hended.2 hbeyond)
  · have hahead : sampleDay.back (-40) = ⟨2026, 4, 29⟩ := by decide +kernel
    obtain ⟨-, -, hfrom⟩ := (runOrdered_counts_back (plainOccasion sampleDay)
      { retentionDays := -40 } sampleLogs hsample).2 hthere
    have hfrom' := hfrom (hahead.symm ▸ ⟨by decide, by decide⟩)
    rw [show (plainOccasion sampleDay).today.back (-40) = ⟨2026, 4, 29⟩ from hahead] at hfrom'
    exact hfrom'
  · exact (runOrdered_counts_back (plainOccasion sampleDay)
      { directory := "old", retentionDays := 9223372036854775807 } sampleLogs hsample).1
      (by decide +kernel)

end Cleanup

end Transcode
