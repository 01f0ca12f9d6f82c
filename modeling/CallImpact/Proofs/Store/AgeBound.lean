import CallImpact.Proofs.Store.Refusal
import CallImpact.Proofs.Store.Survival

/-!
# Age bounds that reach beyond all dates

The cut-off of an age bound is an instant, and instants have dates only from the year -262143 on.
So there is a greatest number of days that can be subtracted from the present (`hasCutoff_iff`),
and any bound up to it is applied. Beyond it retention fails (`History.retain_aborted_iff`), and
with it every cleaning of a project with a record, which changes nothing (`clean_aborted_iff`). A
save fails too, but only after its snapshot came to its place (`save_aborted_iff`): the data file
is the new one, and the record is still the old one (`IsHalfDone`).
-/

namespace CallImpact

/-! ## The days before an instant -/

namespace Instant

/-- The earliest instant, in seconds. -/
theorem earliest_eq : earliest = ⟨-8334601228800, 0⟩ := rfl

/-- An instant some days earlier has a date as long as it is not before the first of all. -/
theorem isSome_daysBefore?_iff (i : Instant) (days : Nat) :
    (i.daysBefore? days).isSome ↔ earliest.seconds + days * secondsPerDay ≤ i.seconds := by
  unfold daysBefore?
  dsimp only
  split
  · rename_i h
    rw [le_iff, earliest_eq] at h
    rw [earliest_eq]
    exact iff_of_true rfl (by dsimp only at h ⊢; omega)
  · rename_i h
    rw [le_iff, earliest_eq] at h
    rw [earliest_eq]
    exact iff_of_false (by simp) (by dsimp only at h ⊢; omega)

/-- Whether an instant is in one of the years from 1970 to 9999. -/
def IsCurrent (now : Instant) : Prop :=
  daysOfDate 1970 1 1 * secondsPerDay ≤ now.seconds ∧
    now.seconds < daysOfDate 10000 1 1 * secondsPerDay

instance : DecidablePred IsCurrent :=
  fun _ => inferInstanceAs (Decidable (_ ∧ _))

/-- The present is current from 1970 to the end of the year 9999. -/
theorem isCurrent_iff {now : Instant} :
    now.IsCurrent ↔ 0 ≤ now.seconds ∧ now.seconds < 253402300800 :=
  Iff.rfl

end Instant

namespace History

/-- The number of days with a date before 1970. -/
def datedDays : Nat := 96465292

/-- The days before 1970 are counted from the first day that has a date. -/
theorem datedDays_eq : (datedDays : Int) = -Instant.daysOfDate Instant.yearRange.1 1 1 := rfl

section
variable {now : Instant} {maxAgeDays : Nat}

/-- The bound on age can be represented exactly when there is none, or when it does not fall before
the earliest instant. -/
theorem hasCutoff_iff : HasCutoff now maxAgeDays ↔
    maxAgeDays = 0 ∨ Instant.earliest.seconds + maxAgeDays * Instant.secondsPerDay ≤ now.seconds :=
  or_congr_right (now.isSome_daysBefore?_iff maxAgeDays)

/-- Without a date for the cut-off, retention fails. -/
theorem cutoff_of_not_hasCutoff (h : ¬ HasCutoff now maxAgeDays) :
    cutoff now maxAgeDays = .error .aborted := by
  obtain ⟨hdays, hnone⟩ := not_or.mp h
  rw [Option.not_isSome_iff_eq_none] at hnone
  rw [cutoff, if_neg hdays, hnone]

/-- Retention ends abnormally exactly when the bound on age cannot be represented. -/
theorem retain_aborted_iff (entries : List HistoryEntry) (maxCount : Nat) :
    retain entries maxCount maxAgeDays now = .error .aborted ↔ ¬ HasCutoff now maxAgeDays := by
  constructor
  · intro haborted hcut
    obtain ⟨bound, -, hretain⟩ := retain_ok entries maxCount hcut
    rw [hretain] at haborted
    cases haborted
  · intro hcut
    rw [retain, cutoff_of_not_hasCutoff hcut]
    rfl

/-- Bounds up to the days before 1970 have a cut-off at every present instant. -/
theorem hasCutoff_of_le (hnow : now.IsCurrent) (h : maxAgeDays ≤ datedDays) :
    HasCutoff now maxAgeDays := by
  rw [hasCutoff_iff, Instant.earliest_eq]
  rw [Instant.isCurrent_iff] at hnow
  simp only [datedDays, Instant.secondsPerDay] at h ⊢
  omega

/-- Bounds beyond the days before the year 10000 have a cut-off at no present instant. -/
theorem le_of_hasCutoff (hnow : now.IsCurrent) (h : HasCutoff now maxAgeDays) :
    maxAgeDays < datedDays + Instant.daysOfDate 10000 1 1 := by
  have hyears : Instant.daysOfDate 10000 1 1 = 2932897 := rfl
  rw [hasCutoff_iff, Instant.earliest_eq] at h
  rw [Instant.isCurrent_iff] at hnow
  simp only [datedDays, Instant.secondsPerDay, hyears] at h ⊢
  omega

end

end History

namespace Store

open History (HasCutoff)

/-! ## Cleaning -/

section
variable {s : Store} {id : String} {now : Instant} {maxAgeDays : Nat}

/-- Reading a record does not abort. -/
theorem record?_ne_aborted (s : Store) (id : String) : s.record? id ≠ .error .aborted := by
  have hmap : ∀ found : Except Error (Option ProjectRecord), found ≠ .error .aborted →
      found.map (·.map fun r => { r with history := History.newestFirst r.history }) ≠
        .error .aborted := by
    rintro (e | _ | r) hfound hmap
    · cases hmap
      exact hfound rfl
    · cases hmap
    · cases hmap
  refine hmap _ ?_
  split
  · exact nofun
  · exact nofun
  · exact nofun
  · split
    · exact nofun
    · exact nofun
  · exact nofun

/-- Writing a record does not abort. -/
theorem finish_ne_aborted {α : Type} (s : Store) (r : ProjectRecord) (a : α) :
    (s.finish r a).2 ≠ .error .aborted := by
  have hwrite : s.writeRecord r ≠ .error .aborted := by
    unfold writeRecord
    dsimp only
    split
    · exact nofun
    · exact nofun
  unfold finish
  split
  · exact nofun
  · rename_i e he
    rintro ⟨⟩
    exact hwrite he

/-- A cleaning aborts when there is something to clean and the bound on its age has no cut-off. It
then changes nothing. -/
theorem clean_aborted_iff (s : Store) (id : String) (maxCount : Nat) :
    ((s.clean id maxCount maxAgeDays now).2 = .error .aborted ↔
      (∃ r, s.record? id = .ok (some r)) ∧ ¬ HasCutoff now maxAgeDays) ∧
    ((s.clean id maxCount maxAgeDays now).2 = .error .aborted →
      (s.clean id maxCount maxAgeDays now).1 = s) := by
  have hread := record?_ne_aborted s id
  unfold clean
  generalize s.record? id = found at hread ⊢
  rcases found with e | _ | r
  · exact ⟨iff_of_false (fun h => hread (congrArg Except.error (Except.error.inj h))) (by simp),
      fun _ => rfl⟩
  · exact ⟨iff_of_false nofun (by simp), nofun⟩
  · have hretain : History.retain r.history maxCount maxAgeDays now = .error .aborted ↔
        ¬ HasCutoff now maxAgeDays := History.retain_aborted_iff r.history maxCount
    dsimp only
    split
    · rename_i e he
      rw [he, Except.error.injEq] at hretain
      exact ⟨by simpa using hretain, fun _ => rfl⟩
    · rename_i p hp
      have hcut : HasCutoff now maxAgeDays := by simpa [hp] using hretain
      have hfinish := finish_ne_aborted
        (p.removed.foldl (fun s e => s.removeData id e) s)
        ({ r with history := p.kept } : ProjectRecord).repairLatest (p.removed.map (s.graphOf id))
      exact ⟨iff_of_false hfinish fun h => h.2 hcut, fun h => absurd h hfinish⟩

end

/-! ## The first part of a save -/

/-- A save up to the point where its snapshot is in its place: what was recorded before, and the
data file. -/
def placing (s : Store) (identity : ProjectIdentity) (new : NewGraph) (now : Instant) :
    Store × List Progress × Except Error (Option ProjectRecord × String) :=
  match s.record? identity.id with
  | .error e => (s, [], .error e)
  | .ok old =>
    match dataFile? (s.nextRecord identity old) new.commit with
    | none => (s, [], .error .aborted)
    | some dataFile =>
      match s.tree.makeDirs (projectDir identity.id ++ [commitsDir]) with
      | .error e => (s, [], .error (fileError e))
      | .ok tree =>
        let start : Progress := ⟨80, "Initializing call graph database"⟩
        match (({ s with tree } : Store).removePartial identity.id
            (temporaryFile dataFile)).placeSnapshot identity.id dataFile new now with
        | (s, progress, .error e) =>
          (s.removePartial identity.id (temporaryFile dataFile), start :: progress, .error e)
        | (s, progress, .ok ()) => (s, start :: progress, .ok (old, dataFile))

section
variable {s s' : Store} {identity : ProjectIdentity} {new : NewGraph} {now : Instant}
  {progress : List Progress} {old : Option ProjectRecord} {file : String} {e : Error}

/-- A save that got so far enters the graph into the record. -/
theorem save_eq (s : Store) (identity : ProjectIdentity) (new : NewGraph) (now : Instant) :
    s.save identity new now =
      match s.placing identity new now with
      | (s', progress, .error e) => (s', progress, .error e)
      | (s', progress, .ok (old, file)) =>
        match s'.enter (s.nextRecord identity old) identity.id (entryOf new file now) now with
        | (s'', .ok g) => (s'', progress ++ [⟨100, "Call graph saved"⟩], .ok g)
        | (s'', .error e) => (s'', progress, .error e) := by
  unfold save placing
  rcases s.record? identity.id with e | old
  · rfl
  dsimp only
  rcases dataFile? (s.nextRecord identity old) new.commit with _ | file
  · rfl
  dsimp only
  rcases s.tree.makeDirs (projectDir identity.id ++ [commitsDir]) with e | tree
  · rfl
  dsimp only
  generalize ({ s with tree } : Store).removePartial identity.id (temporaryFile file) = prepared
  rcases prepared.placeSnapshot identity.id file new now with ⟨s', progress, e | -⟩
  · rfl
  · rfl

/-- Placing a data file never ends abnormally. -/
theorem placeSnapshot_ne_aborted (s : Store) (id file : String) (new : NewGraph) (now : Instant) :
    (s.placeSnapshot id file new now).2.2 ≠ .error .aborted := by
  unfold placeSnapshot
  dsimp only
  split
  · exact nofun
  · split
    · exact nofun
    · split
      · exact nofun
      · exact nofun

/-- Up to the point where the snapshot is in its place, a save aborts only over the name of the data
file. -/
theorem placing_aborted_iff (s : Store) (identity : ProjectIdentity) (new : NewGraph)
    (now : Instant) :
    (s.placing identity new now).2.2 = .error .aborted ↔
      ∃ old, s.record? identity.id = .ok old ∧
        dataFile? (s.nextRecord identity old) new.commit = none := by
  have hread := record?_ne_aborted s identity.id
  unfold placing
  generalize s.record? identity.id = found at hread ⊢
  rcases found with e | old
  · refine iff_of_false (fun h => hread ?_) (by simp)
    exact congrArg Except.error (Except.error.inj h)
  dsimp only
  cases hfile : dataFile? (s.nextRecord identity old) new.commit with
  | none => exact iff_of_true rfl ⟨old, rfl, hfile⟩
  | some file =>
    refine iff_of_false ?_ (by simp [hfile])
    dsimp only
    cases s.tree.makeDirs (projectDir identity.id ++ [commitsDir]) with
    | error e => exact nofun
    | ok tree =>
      dsimp only
      have hplace := placeSnapshot_ne_aborted
        (({ s with tree } : Store).removePartial identity.id (temporaryFile file)) identity.id file
        new now
      split
      · rename_i hout
        rw [hout] at hplace
        exact fun h => hplace (congrArg Except.error (Except.error.inj h))
      · exact nofun

/-- A snapshot that was placed changed nothing beside its place and that of its temporary file. -/
theorem at?_of_placeSnapshot {id : String} {p : Path}
    (h : s.placeSnapshot id file new now = (s', progress, .ok ()))
    (htmp : p ≠ dataPath id (temporaryFile file)) (hplace : p ≠ dataPath id file) :
    s'.tree.at? p = s.tree.at? p := by
  simp only [placeSnapshot] at h
  split at h
  · cases h
  · rename_i created hcreated
    split at h
    · cases h
    · rename_i snapshot hsnap
      split at h
      · rename_i moved hmoved
        cases h
        rw [FileTree.at?_of_rename hmoved htmp hplace,
          FileTree.at?_of_writeFile (FileTree.writeFile_of_writeFile hcreated _) htmp,
          FileTree.at?_of_writeFile hcreated htmp]
      · cases h

/-- Clearing a data file removes what may be left of it. -/
theorem removePartial_eq (s : Store) (id file : String) :
    s.removePartial id (temporaryFile file) =
      { s with tree := (leftovers id file).foldl FileTree.removeFile s.tree } := by
  rw [removePartial, leftovers, List.foldl_map]

/-- Whether of a save only the first part was done: the data file holds the new snapshot, and what
is recorded about the project is what was recorded before. -/
structure IsHalfDone (s s' : Store) (id file : String) (new : NewGraph) (now : Instant) : Prop where
  placed : ∃ snapshot, s'.openSnapshot id file = .ok snapshot ∧ IsSnapshotOf snapshot new now
  recorded : s'.record? id = s.record? id

/-- A save that comes to its retention has placed the new data file, and has written no record
yet. -/
theorem placing_ok (h : s.placing identity new now = (s', progress, .ok (old, file))) :
    s'.retention = s.retention ∧ s.IsHalfDone s' identity.id file new now := by
  unfold placing at h
  split at h
  · cases h
  · split at h
    · cases h
    · rename_i chosen hchosen
      split at h
      · cases h
      · rename_i tree htree
        rw [removePartial_eq] at h
        dsimp only at h
        split at h
        · cases h
        · rename_i hplace
          cases h
          obtain ⟨name, rfl⟩ := exists_dataFileNamed hchosen
          obtain ⟨t, snapshot, hs', hsnap, hdata⟩ := content?_of_placeSnapshot hplace
          have hrecord := lastLetter?_recordPath identity.id
          have hat := at?_of_placeSnapshot hplace
            (ne_of_lastLetter? hrecord (lastLetter?_temporaryFile identity.id _) (by decide))
            (ne_of_lastLetter? hrecord (lastLetter?_dataFileNamed identity.id name) (by decide))
          rw [FileTree.at?_removeFiles_of_not_mem tree (recordPath_not_mem_leftovers _ _),
            FileTree.at?_of_makeDirs htree (recordPath_not_above identity.id)] at hat
          refine ⟨by rw [hs'], ⟨⟨snapshot, ?_, isSnapshotOf_snapshotOf hsnap⟩, record?_congr hat⟩⟩
          rw [hs']
          exact openSnapshot_of_at? (FileTree.content?_eq_some_iff.mp hdata)

/-! ## The second part of a save -/

/-- Entering a graph aborts when the bound on the age has no cut-off, and then changes nothing. -/
theorem enter_aborted_iff (s : Store) (r : ProjectRecord) (id : String) (e : HistoryEntry)
    (now : Instant) :
    ((s.enter r id e now).2 = .error .aborted ↔ ¬ HasCutoff now s.retention.maxAgeDays) ∧
    (¬ HasCutoff now s.retention.maxAgeDays → s.enter r id e now = (s, .error .aborted)) := by
  by_cases hcut : HasCutoff now s.retention.maxAgeDays
  · obtain ⟨bound, hbound⟩ := History.exists_cutoff hcut
    refine ⟨iff_of_false ?_ fun h => h hcut, fun h => absurd hcut h⟩
    rw [enter_eq hbound]
    exact finish_ne_aborted _ _ _
  · have heq : s.enter r id e now = (s, .error .aborted) := by
      rw [enter, (History.retain_aborted_iff _ _).mpr hcut]
    exact ⟨iff_of_true (by rw [heq]) hcut, fun _ => heq⟩

/-- A save aborts over the name of the data file, or when its snapshot is in its place and the bound
on the age has no cut-off. It then is half done. -/
theorem save_aborted_iff (s : Store) (identity : ProjectIdentity) (new : NewGraph) (now : Instant) :
    ((s.save identity new now).2.2 = .error .aborted ↔
      (∃ old, s.record? identity.id = .ok old ∧
        dataFile? (s.nextRecord identity old) new.commit = none) ∨
      (∃ placed, (s.placing identity new now).2.2 = .ok placed) ∧
        ¬ HasCutoff now s.retention.maxAgeDays) ∧
    ∀ old file, (s.placing identity new now).2.2 = .ok (old, file) →
      ¬ HasCutoff now s.retention.maxAgeDays →
        s.IsHalfDone (s.save identity new now).1 identity.id file new now := by
  rw [← placing_aborted_iff, save_eq]
  rcases hplacing : s.placing identity new now with ⟨s', progress, e | ⟨old, file⟩⟩
  · exact ⟨by simp, nofun⟩
  · obtain ⟨hretention, hhalf⟩ := placing_ok hplacing
    obtain ⟨hiff, habort⟩ := s'.enter_aborted_iff (s.nextRecord identity old) identity.id
      (entryOf new file now) now
    rw [hretention] at hiff habort
    constructor
    · rw [← hiff]
      dsimp only
      split
      · rename_i hout
        simp [hout]
      · rename_i hout
        simp [hout]
    · rintro _ _ ⟨⟩ hcut
      dsimp only
      rw [habort hcut]
      exact hhalf

end

/-! ## Which bounds abort -/

/-- An age bound has a cut-off at every present instant as long as it is at most the number of
days with a date before 1970, and at none when it reaches the number of those before the year
10000. Without a cut-off retention aborts. So does every cleaning of a project with a record,
which changes nothing, and every save that has put its snapshot in its place, which is then half
done. With a cut-off nothing aborts but a save whose commit would be cut inside a character. -/
theorem aborts_iff_no_cutoff {now : Instant} (hnow : now.IsCurrent) (maxAgeDays : Nat) :
    (maxAgeDays ≤ History.datedDays → HasCutoff now maxAgeDays) ∧
    (HasCutoff now maxAgeDays →
      maxAgeDays < History.datedDays + Instant.daysOfDate 10000 1 1) ∧
    (∀ entries maxCount, History.retain entries maxCount maxAgeDays now = .error .aborted ↔
      ¬ HasCutoff now maxAgeDays) ∧
    (∀ (s : Store) id maxCount,
      ((s.clean id maxCount maxAgeDays now).2 = .error .aborted ↔
        (∃ r, s.record? id = .ok (some r)) ∧ ¬ HasCutoff now maxAgeDays) ∧
      ((s.clean id maxCount maxAgeDays now).2 = .error .aborted →
        (s.clean id maxCount maxAgeDays now).1 = s)) ∧
    ∀ (s : Store) identity new, s.retention.maxAgeDays = maxAgeDays →
      ((s.save identity new now).2.2 = .error .aborted ↔
        (∃ old, s.record? identity.id = .ok old ∧
          dataFile? (s.nextRecord identity old) new.commit = none) ∨
        (∃ placed, (s.placing identity new now).2.2 = .ok placed) ∧ ¬ HasCutoff now maxAgeDays) ∧
      ∀ old file, (s.placing identity new now).2.2 = .ok (old, file) → ¬ HasCutoff now maxAgeDays →
        s.IsHalfDone (s.save identity new now).1 identity.id file new now := by
  refine ⟨History.hasCutoff_of_le hnow, History.le_of_hasCutoff hnow,
    History.retain_aborted_iff, fun s id maxCount => clean_aborted_iff s id maxCount,
    fun s identity new hbound => ?_⟩
  subst hbound
  exact save_aborted_iff s identity new now

/-- The case of a bound of all days before 1970 that have a date, which is applied, and of the
greatest one, which is not. -/
theorem aborts_iff_no_cutoff_aheadStore :
    (⟨1772323200, 0⟩ : Instant).IsCurrent ∧
    HasCutoff ⟨1772323200, 0⟩ 96465292 ∧ ¬ HasCutoff ⟨1772323200, 0⟩ 4294967295 ∧
    (aheadStore 1).clean aheadProject.id 1 4294967295 ⟨1772323200, 0⟩ =
      (aheadStore 1, .error .aborted) := by
  have hnow : (⟨1772323200, 0⟩ : Instant).IsCurrent := by decide
  have hfar : ¬ HasCutoff ⟨1772323200, 0⟩ 4294967295 := fun h =>
    absurd ((aborts_iff_no_cutoff hnow 4294967295).2.1 h) (by decide)
  obtain ⟨hiff, hsame⟩ :=
    (aborts_iff_no_cutoff hnow 4294967295).2.2.2.1 (aheadStore 1) aheadProject.id 1
  have habort := hiff.mpr ⟨⟨aheadRecord, record?_aheadStore 1⟩, hfar⟩
  exact ⟨hnow, (aborts_iff_no_cutoff hnow 96465292).1 (Nat.le_refl _), hfar,
    Prod.ext (hsame habort) habort⟩

/-- Where graphs may be as old as a number of 32 bits can say, nothing can be saved: the save
aborts, the new data file is there, and nothing is recorded. -/
theorem save_stops_half_way :
    (⟨1772323200, 0⟩ : Instant).IsCurrent ∧
    let s := ({ dataDir := "data", retention := ⟨10, 4294967295⟩ } : Store).save
      aheadProject nextGraph ⟨1772323200, 0⟩
    s.2.2 = .error .aborted ∧
      (∃ snapshot, s.1.openSnapshot aheadProject.id "commits/bbbbbbb.db" = .ok snapshot ∧
        IsSnapshotOf snapshot nextGraph ⟨1772323200, 0⟩) ∧
      s.1.record? aheadProject.id = .ok none := by
  have hfar : ¬ HasCutoff ⟨1772323200, 0⟩ 4294967295 := by
    rw [History.hasCutoff_iff]
    decide
  have hplaced : (({ dataDir := "data", retention := ⟨10, 4294967295⟩ } : Store).placing
      aheadProject nextGraph ⟨1772323200, 0⟩).2.2 = .ok (none, "commits/bbbbbbb.db") := by
    decide +kernel
  obtain ⟨habort, hhalf⟩ := save_aborted_iff
    ({ dataDir := "data", retention := ⟨10, 4294967295⟩ } : Store) aheadProject nextGraph
    ⟨1772323200, 0⟩
  exact ⟨by decide, habort.mpr (.inr ⟨⟨_, hplaced⟩, hfar⟩), (hhalf _ _ hplaced hfar).placed,
    (hhalf _ _ hplaced hfar).recorded⟩

end Store

end CallImpact
