import CallImpact.Proofs.Store.Revision

/-!
# What a cleaning keeps

A cleaning keeps the entries in front of a history, as far as their number and their age are
within the bounds, and removes the rest with its data files (`clean_exact`). The age of an entry
is stated without a cut-off (`IsRecent`), and so is where the latest commit goes (`Repointed`).
What was kept is kept again: a second cleaning by the same bounds at the same instant removes
nothing and changes no file.
-/

namespace CallImpact.Store

open History (HasCutoff cutoff)

/-! ## Age -/

/-- Whether an entry is not older than a number of days. With zero days there is no bound. -/
def IsRecent (now : Instant) (maxAgeDays : Nat) (e : HistoryEntry) : Prop :=
  maxAgeDays = 0 ∨
    now.le { e.created with seconds := e.created.seconds + maxAgeDays * Instant.secondsPerDay }

instance (now : Instant) (maxAgeDays : Nat) (e : HistoryEntry) :
    Decidable (IsRecent now maxAgeDays e) :=
  inferInstanceAs (Decidable (_ ∨ _))

/-- The entries that are not older than the cut-off are those that are recent. -/
theorem cutoff_le_iff {now : Instant} {maxAgeDays : Nat} {bound : Option Instant}
    (h : cutoff now maxAgeDays = .ok bound) (e : HistoryEntry) :
    (∀ c ∈ bound, c.le e.created) ↔ IsRecent now maxAgeDays e := by
  unfold cutoff at h
  split at h
  · rename_i hzero
    cases h
    exact iff_of_true nofun (.inl hzero)
  · rename_i hdays
    split at h
    · rename_i c hc
      cases h
      obtain rfl :
          { now with seconds := now.seconds - maxAgeDays * Instant.secondsPerDay } = c := by
        unfold Instant.daysBefore? at hc
        dsimp only at hc
        split at hc
        · exact Option.some.inj hc
        · cases hc
      simp only [IsRecent, hdays, false_or, Option.mem_some_iff, forall_eq', Instant.le_iff]
      omega
    · cases h

/-! ## Cleaning -/

section
variable {s : Store} {id : String} {r : ProjectRecord} {maxCount maxAgeDays : Nat} {now : Instant}

/-- A cleaning writes the record with what is kept, after the data files of the rest were removed.
-/
theorem Recorded.clean {bound : Option Instant} (h : Recorded s id (some r)) (maxCount : Nat)
    (hcut : cutoff now maxAgeDays = .ok bound) :
    ∃ t, s.clean id maxCount maxAgeDays now = ({ s with tree := t },
        .ok ((History.partition r.history maxCount bound).removed.map (s.graphOf id))) ∧
      Revised (reduced r (History.partition r.history maxCount bound).kept)
        (History.partition r.history maxCount bound).removed s.tree t := by
  have hretain : History.retain r.history maxCount maxAgeDays now =
      .ok (History.partition r.history maxCount bound) := by
    rw [History.retain, hcut]
    rfl
  have hid : (reduced r (History.partition r.history maxCount bound).kept).id = id := by
    rw [id_reduced]
    exact h.owner r rfl
  obtain ⟨t, ht, hrevised⟩ := h.revise hid (History.partition r.history maxCount bound).removed
    ((History.partition r.history maxCount bound).removed.map (s.graphOf id))
  refine ⟨t, ?_, hrevised⟩
  unfold Store.clean
  rw [h.read]
  simp only [hretain]
  exact ht

/-- A cleaning keeps exactly the entries whose rank is below the bound on their number and that
are not older than the bound on their age. They are the newest ones, and their data files stay;
the others are removed and reported, and their data files are gone. The latest commit stays with
its entry, or moves to the newest that is left. The same cleaning once more removes nothing and
changes no file. -/
theorem clean_exact (h : Recorded s id (some r)) (hplaces : (places id r.history).Nodup)
    (maxCount : Nat) (hcut : HasCutoff now maxAgeDays) :
    ∃ kept removed latest t,
      History.Newest r.history ∧ kept ++ removed = r.history ∧
      (∀ i e, r.history[i]? = some e →
        (i < kept.length ↔ i < maxCount ∧ IsRecent now maxAgeDays e)) ∧
      s.clean id maxCount maxAgeDays now =
        ({ s with tree := t }, .ok (removed.map (s.graphOf id))) ∧
      Leaves s id { r with history := kept, latest } removed t ∧
      (∀ e ∈ kept, dataPath id e.dataFile ∉ places id removed) ∧
      Repointed r.latest kept latest ∧
      ∃ t', ({ s with tree := t } : Store).clean id maxCount maxAgeDays now =
          ({ s with tree := t' }, .ok []) ∧
        ∀ p, t'.content? p = t.content? p := by
  obtain ⟨bound, hbound⟩ := History.exists_cutoff hcut
  obtain ⟨t, ht, hrevised⟩ := h.clean maxCount hbound
  have hnewest := newest_of_record? h.read
  have hparts := hnewest.kept_append_removed maxCount bound
  have hranks := fun i e (he : r.history[i]? = some e) =>
    hnewest.lt_length_kept_iff maxCount bound he
  have hagain := hnewest.partition_kept maxCount bound
  generalize History.partition r.history maxCount bound = p at ht hrevised hparts hranks hagain
  have hkept : History.Newest (reduced r p.kept).history := by
    rw [history_reduced]
    exact hnewest.sublist (hparts ▸ List.sublist_append_left _ _)
  have hid : (reduced r p.kept).id = id := (id_reduced r p.kept).trans (h.owner r rfl)
  have hleaves := hrevised.leaves hid hkept
  rw [reduced_eq] at hleaves
  refine ⟨p.kept, p.removed, (reduced r p.kept).latest, t, hnewest, hparts, fun i e he => ?_, ht,
    hleaves, ?_, repointed_reduced r p.kept, ?_⟩
  · rw [hranks i e he, cutoff_le_iff hbound]
  · rw [← hparts, places, List.map_append, List.nodup_append] at hplaces
    exact fun e he hmem => hplaces.2.2 _ (List.mem_map_of_mem he) _ hmem rfl
  · have hrecorded := hrevised.recorded hkept
    rw [hid] at hrecorded
    obtain ⟨t', ht', hrevised'⟩ := hrecorded.clean maxCount hbound
    rw [history_reduced, hagain] at ht' hrevised'
    rw [reduced_reduced] at hrevised'
    exact ⟨t', ht', hrevised.content?_again hrevised'⟩

end

/-! ## Two entries of one instant -/

/-- A record of two entries of one instant, of which the second counts as the latest, and an old
one. -/
def agedRecord : ProjectRecord :=
  { id := "p1", name := "app", latest := some ⟨"a1", dataFileNamed "a1"⟩
    history := [entryAt "b2" 900000, entryAt "a1" 900000, entryAt "c3" 100000] }

/-- A data directory with that record and its data files. -/
def agedStore : Store :=
  storeWith agedRecord
    [("a1.db", .file .binary), ("b2.db", .file .binary), ("c3.db", .file .binary)]

/-- The sample record can be read from its store. -/
theorem recorded_agedStore : Recorded agedStore "p1" (some agedRecord) := by
  have hnewest : History.Newest agedRecord.history := by
    unfold History.Newest
    decide
  exact recorded_storeWith _ rfl hnewest

/-- Where one entry may stay, the first of the two stays and becomes the latest. -/
theorem clean_exact_agedStore :
    (places "p1" agedRecord.history).Nodup ∧ HasCutoff ⟨986400, 0⟩ 5 ∧
    ∃ t, agedStore.clean "p1" 1 5 ⟨986400, 0⟩ = ({ agedStore with tree := t },
        .ok [agedStore.graphOf "p1" (entryAt "a1" 900000),
          agedStore.graphOf "p1" (entryAt "c3" 100000)]) ∧
      ({ agedStore with tree := t } : Store).record? "p1" = .ok (some
        { agedRecord with
          history := [entryAt "b2" 900000], latest := some ⟨"b2", dataFileNamed "b2"⟩ }) ∧
      t.hasFile (dataPath "p1" (dataFileNamed "b2")) ∧
      ¬ t.hasFile (dataPath "p1" (dataFileNamed "a1")) := by
  have hplaces : (places "p1" agedRecord.history).Nodup := by decide +kernel
  have hcut : HasCutoff ⟨986400, 0⟩ 5 := by decide
  refine ⟨hplaces, hcut, ?_⟩
  obtain ⟨kept, removed, latest, t, -, hparts, hranks, hclean, hleaves, -, hlatest, -⟩ :=
    clean_exact recorded_agedStore hplaces 1 hcut
  have hlength : kept.length = 1 := by
    have hfirst := (hranks 0 (entryAt "b2" 900000) rfl).mpr ⟨by decide, by decide⟩
    have hsecond : ¬ 1 < kept.length := fun hlt =>
      absurd ((hranks 1 (entryAt "a1" 900000) rfl).mp hlt).1 (by decide)
    omega
  obtain ⟨e, rfl⟩ := List.length_eq_one_iff.mp hlength
  obtain ⟨rfl, rfl⟩ := List.cons.inj hparts
  have hmoved : latest = some ⟨"b2", dataFileNamed "b2"⟩ := hlatest.moves (by decide)
  subst hmoved
  refine ⟨t, hclean, hleaves.record, ?_, ?_⟩
  · rw [FileTree.hasFile, hleaves.files _ (by decide +kernel) (by decide +kernel),
      if_neg (by decide +kernel)]
    rfl
  · rw [FileTree.hasFile, hleaves.files _ (by decide +kernel) (by decide +kernel),
      if_pos (by decide +kernel)]
    simp

end CallImpact.Store
