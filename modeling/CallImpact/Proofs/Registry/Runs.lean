import CallImpact.Proofs.Registry
import Mathlib.Order.ConditionallyCompleteLattice.Basic
import Mathlib.Order.Lattice.Nat

/-!
# Runs of the registry

A run begins without a registry, and its steps are changes that can be written and reads of the
file. What is registered after it is told by its steps alone (`Reflects`): for each identifier
that was entered since it was last removed there is one project, which was created at the first of
these steps and is otherwise as the last one has it (`IsTold`), and the projects stand in the
order of those first steps (`Precedes`). One step preserves this (`Reflects.upsert`,
`Reflects.remove`, `Reflects.reload`), and with it that the file holds what is in memory
(`Runs.reflects`).
-/

namespace CallImpact.Registry

/-- A step of a run. -/
inductive Step where
  | change (c : Change)
  | reload

/-- The runs from a directory tree in which all changes are written: their steps, what is in memory
after them, and the tree. -/
inductive Runs (shown : String) (start : FileTree Stored) :
    List Step → Registry → FileTree Stored → Prop
  | start {r : Registry} : load shown start = .ok r → Runs shown start [] r start
  | change {steps : List Step} {r r' : Registry} {t t' : FileTree Stored} {c : Change}
    {a : Answer} :
      Runs shown start steps r t → c.make r t = (r', t', .ok a) →
        Runs shown start (steps ++ [.change c]) r' t'
  | reload {steps : List Step} {r r' : Registry} {t : FileTree Stored} :
      Runs shown start steps r t → load shown t = .ok r' →
        Runs shown start (steps ++ [.reload]) r' t

/-! ## What the steps of a run tell -/

/-- Whether a step enters a project, and no later one removes its identifier. -/
def Enters (steps : List Step) (i : Nat) (p : Project) (now : Instant) : Prop :=
  steps[i]? = some (.change (.upsert p now)) ∧
    ∀ k, i < k → steps[k]? ≠ some (.change (.remove p.id))

/-- The positions of the steps that enter an identifier since it was last removed. -/
def enteredAt (steps : List Step) (id : String) : Set Nat :=
  {i | ∃ p now, Enters steps i p now ∧ p.id = id}

/-- Whether a project is what the steps tell about its identifier: it was created at the first step
that enters it, and is otherwise as the last one has it. -/
structure IsTold (steps : List Step) (q : Project) : Prop where
  created : ∃ first p now, IsLeast (enteredAt steps q.id) first ∧ Enters steps first p now ∧
    q.created = p.created
  fields : ∃ last p now, IsGreatest (enteredAt steps q.id) last ∧ Enters steps last p now ∧
    q = { p with created := q.created, updated := now }

/-- Whether all local paths that steps enter are text. -/
def EntersText (steps : List Step) : Prop :=
  ∀ p now, .change (.upsert p now) ∈ steps → ∀ path ∈ p.localPaths, path.text?.isSome

/-- Whether an identifier was first entered before another. -/
def Precedes (steps : List Step) (a b : String) : Prop :=
  ∃ i j, IsLeast (enteredAt steps a) i ∧ IsLeast (enteredAt steps b) j ∧ i < j

/-- Whether the registered projects are those of which the steps tell, in the order in which they
were first entered. -/
structure Reflects (steps : List Step) (r : Registry) : Prop where
  told : ∀ q, q ∈ r.projects ↔ IsTold steps q
  order : (r.projects.map (·.id)).Pairwise (Precedes steps)

section
variable {steps : List Step} {step : Step} {i : Nat} {id : String} {p p' q q' : Project}
  {now now' : Instant} {r : Registry}

/-- The steps of a longer run are the last one and those before it. -/
theorem getElem?_concat_eq_some_iff {step' : Step} :
    (steps ++ [step])[i]? = some step' ↔
      i = steps.length ∧ step = step' ∨ steps[i]? = some step' := by
  rcases Nat.lt_trichotomy i steps.length with h | rfl | h
  · rw [List.getElem?_append_left h, or_iff_right fun hi => h.ne hi.1]
  · simp
  · have hlong : (steps ++ [step])[i]? = none := by
      rw [List.getElem?_eq_none_iff, List.length_append, List.length_singleton]
      exact h
    rw [hlong, List.getElem?_eq_none (Nat.le_of_lt h), or_iff_left (Option.some_ne_none _).symm]
    exact iff_of_false (Option.some_ne_none _).symm fun hi => h.ne' hi.1

/-- A step that enters a project removes no identifier. -/
theorem upsert_ne_remove : Step.change (.upsert p now) ≠ .change (.remove id) := by
  rintro ⟨⟩

/-- A step that enters a project is a step of the run. -/
theorem Enters.lt_length (h : Enters steps i p now) : i < steps.length :=
  (List.getElem?_eq_some_iff.mp h.1).1

/-- A step enters one project. -/
theorem Enters.unique (h : Enters steps i p now) (h' : Enters steps i p' now') :
    p = p' ∧ now = now' := by
  have heq := Option.some.inj (h.1.symm.trans h'.1)
  cases heq
  exact ⟨rfl, rfl⟩

/-- A step that enters an identifier enters a project of that identifier. -/
theorem Enters.id_eq (h : Enters steps i p now) (hi : i ∈ enteredAt steps id) : p.id = id := by
  obtain ⟨p', now', h', rfl⟩ := hi
  rw [(h.unique h').1]

/-- The positions at which an identifier is entered lie within the run. -/
theorem lt_length_of_mem_enteredAt (h : i ∈ enteredAt steps id) : i < steps.length := by
  obtain ⟨p, now, h, -⟩ := h
  exact h.lt_length

/-- A further step enters a project itself, or leaves those that were entered unless it removes
their identifier. -/
theorem enters_concat_iff : Enters (steps ++ [step]) i p now ↔
    i = steps.length ∧ step = .change (.upsert p now) ∨
      Enters steps i p now ∧ step ≠ .change (.remove p.id) := by
  unfold Enters
  simp only [getElem?_concat_eq_some_iff, ne_eq, not_or, not_and]
  constructor
  · rintro ⟨⟨rfl, hstep⟩ | hstep, hlater⟩
    · exact .inl ⟨rfl, hstep⟩
    · have hi := (List.getElem?_eq_some_iff.mp hstep).1
      exact .inr ⟨⟨hstep, fun k hk => (hlater k hk).2⟩, (hlater _ hi).1 rfl⟩
  · rintro (⟨rfl, hstep⟩ | ⟨⟨hstep, hlater⟩, hremove⟩)
    · refine ⟨.inl ⟨rfl, hstep⟩, fun k hk => ⟨fun he => absurd he hk.ne', ?_⟩⟩
      rw [List.getElem?_eq_none hk.le]
      exact (Option.some_ne_none _).symm
    · exact ⟨.inr hstep, fun k hk => ⟨fun _ => hremove, hlater k hk⟩⟩

/-- A longer run enters an identifier with its last step, or before it when the last step does not
remove the identifier. -/
theorem mem_enteredAt_concat_iff : i ∈ enteredAt (steps ++ [step]) id ↔
    (i = steps.length ∧ ∃ p now, step = .change (.upsert p now) ∧ p.id = id) ∨
      i ∈ enteredAt steps id ∧ step ≠ .change (.remove id) := by
  constructor
  · rintro ⟨p, now, hp, rfl⟩
    rcases enters_concat_iff.mp hp with ⟨hi, hstep⟩ | ⟨hp, hstep⟩
    · exact .inl ⟨hi, p, now, hstep, rfl⟩
    · exact .inr ⟨⟨p, now, hp, rfl⟩, hstep⟩
  · rintro (⟨hi, p, now, hstep, rfl⟩ | ⟨⟨p, now, hp, rfl⟩, hstep⟩)
    · exact ⟨p, now, enters_concat_iff.mpr (.inl ⟨hi, hstep⟩), rfl⟩
    · exact ⟨p, now, enters_concat_iff.mpr (.inr ⟨hp, hstep⟩), rfl⟩

/-- The first step that enters an identifier stays the first until it is removed. -/
theorem isLeast_concat (h : IsLeast (enteredAt steps id) i) (hstep : step ≠ .change (.remove id)) :
    IsLeast (enteredAt (steps ++ [step]) id) i := by
  refine ⟨mem_enteredAt_concat_iff.mpr (.inr ⟨h.1, hstep⟩), fun k hk => ?_⟩
  rcases mem_enteredAt_concat_iff.mp hk with ⟨rfl, -⟩ | ⟨hk, -⟩
  · exact (lt_length_of_mem_enteredAt h.1).le
  · exact h.2 hk

/-- A step that removes neither of two identifiers leaves the order of their first entries. -/
theorem Precedes.concat {a b : String} (h : Precedes steps a b) (ha : step ≠ .change (.remove a))
    (hb : step ≠ .change (.remove b)) : Precedes (steps ++ [step]) a b := by
  obtain ⟨i, j, hi, hj, hlt⟩ := h
  exact ⟨i, j, isLeast_concat hi ha, isLeast_concat hj hb, hlt⟩

/-- The steps tell one thing about an identifier. -/
theorem IsTold.unique (h : IsTold steps q) (h' : IsTold steps q')
    (hid : q.id = q'.id) : q = q' := by
  obtain ⟨first, p, now, hfirst, hp, hcreated⟩ := h.created
  obtain ⟨first', p', now', hfirst', hp', hcreated'⟩ := h'.created
  rw [← hid] at hfirst'
  obtain rfl := hfirst.unique hfirst'
  obtain ⟨rfl, -⟩ := hp.unique hp'
  obtain ⟨last, p, now, hlast, hp, hq⟩ := h.fields
  obtain ⟨last', p', now', hlast', hp', hq'⟩ := h'.fields
  rw [← hid] at hlast'
  obtain rfl := hlast.unique hlast'
  obtain ⟨rfl, rfl⟩ := hp.unique hp'
  rw [hq, hq', hcreated, hcreated']

/-- What the steps tell about an identifier does not change with a step for none or another one. -/
theorem isTold_concat_iff (hupsert : ∀ p now, p.id = q.id → step ≠ .change (.upsert p now))
    (hremove : step ≠ .change (.remove q.id)) : IsTold (steps ++ [step]) q ↔ IsTold steps q := by
  have hentered : enteredAt (steps ++ [step]) q.id = enteredAt steps q.id := by
    ext i
    rw [mem_enteredAt_concat_iff, and_iff_left hremove]
    refine or_iff_right ?_
    rintro ⟨-, p, now, hstep, hid⟩
    exact hupsert p now hid hstep
  have henters : ∀ {i p now}, i ∈ enteredAt steps q.id →
      (Enters (steps ++ [step]) i p now ↔ Enters steps i p now) := by
    intro i p now hi
    constructor
    · intro hp
      rcases enters_concat_iff.mp hp with ⟨-, hstep⟩ | ⟨hp, -⟩
      · exact absurd hstep (hupsert p now (hp.id_eq (hentered ▸ hi)))
      · exact hp
    · intro hp
      refine enters_concat_iff.mpr (.inr ⟨hp, ?_⟩)
      rwa [hp.id_eq hi]
  constructor
  · rintro ⟨⟨first, p, now, hfirst, hp, hcreated⟩, last, p', now', hlast, hp', hq⟩
    rw [hentered] at hfirst hlast
    exact ⟨⟨first, p, now, hfirst, (henters hfirst.1).mp hp, hcreated⟩,
      last, p', now', hlast, (henters hlast.1).mp hp', hq⟩
  · rintro ⟨⟨first, p, now, hfirst, hp, hcreated⟩, last, p', now', hlast, hp', hq⟩
    have hfirst' := hentered ▸ hfirst
    have hlast' := hentered ▸ hlast
    exact ⟨⟨first, p, now, hfirst', (henters hfirst.1).mpr hp, hcreated⟩,
      last, p', now', hlast', (henters hlast.1).mpr hp', hq⟩

end

/-! ## One step -/

/-- The steps tell of every identifier that was entered since it was last removed. -/
theorem exists_isTold {steps : List Step} {id : String} (h : (enteredAt steps id).Nonempty) :
    ∃ q, q.id = id ∧ IsTold steps q := by
  have hbound : BddAbove (enteredAt steps id) :=
    ⟨steps.length, fun i hi => (lt_length_of_mem_enteredAt hi).le⟩
  have hfirst : IsLeast (enteredAt steps id) (sInf (enteredAt steps id)) :=
    ⟨Nat.sInf_mem h, fun i hi => Nat.sInf_le hi⟩
  have hlast : IsGreatest (enteredAt steps id) (sSup (enteredAt steps id)) :=
    ⟨Nat.sSup_mem h hbound, fun i hi => le_csSup hbound hi⟩
  obtain ⟨p, now, hp, -⟩ := hfirst.1
  obtain ⟨p', now', hp', hid⟩ := hlast.1
  subst hid
  exact ⟨{ p' with created := p.created, updated := now' }, rfl,
    ⟨_, p, now, hfirst, hp, rfl⟩, _, p', now', hlast, hp', rfl⟩

/-- Before the first step nothing is registered. -/
theorem reflects_nil : Reflects [] {} where
  told q := by
    refine iff_of_false List.not_mem_nil fun h => ?_
    obtain ⟨first, p, now, -, hp, -⟩ := h.created
    exact Nat.not_lt_zero _ hp.lt_length
  order := List.Pairwise.nil

namespace Reflects

variable {steps : List Step} {r : Registry}

/-- The registered identifiers are distinct. -/
theorem nodup (h : Reflects steps r) : (r.projects.map (·.id)).Nodup := by
  refine h.order.imp ?_
  rintro a b ⟨i, j, hi, hj, hlt⟩ rfl
  exact hlt.ne (hi.unique hj)

/-- An identifier is registered when it was entered since it was last removed. -/
theorem mem_ids_iff (h : Reflects steps r) (id : String) :
    id ∈ r.projects.map (·.id) ↔ (enteredAt steps id).Nonempty := by
  rw [List.mem_map]
  constructor
  · rintro ⟨q, hq, rfl⟩
    obtain ⟨first, -, -, hfirst, -⟩ := ((h.told q).mp hq).created
    exact ⟨first, hfirst.1⟩
  · intro hid
    obtain ⟨q, rfl, hq⟩ := exists_isTold hid
    exact ⟨q, (h.told q).mpr hq, rfl⟩

/-- Reading the file is told by nothing. -/
theorem reload (h : Reflects steps r) : Reflects (steps ++ [.reload]) r where
  told q := (h.told q).trans (isTold_concat_iff (by rintro _ _ _ ⟨⟩) (by rintro ⟨⟩)).symm
  order := h.order.imp fun hab => hab.concat (by rintro ⟨⟩) (by rintro ⟨⟩)

/-- After a removal the registry reflects the run with the removal. -/
theorem remove (h : Reflects steps r) (id : String) :
    Reflects (steps ++ [.change (.remove id)]) ((Change.remove id).result r) where
  told q := by
    rw [Change.result, List.mem_filter, bne_iff_ne]
    by_cases hid : q.id = id
    · refine iff_of_false (fun hq => hq.2 hid) fun hq => ?_
      obtain ⟨first, -, -, hfirst, -⟩ := hq.created
      rcases mem_enteredAt_concat_iff.mp hfirst.1 with ⟨-, p, now, hstep, -⟩ | ⟨-, hstep⟩
      · cases hstep
      · exact hstep (by rw [hid])
    · rw [and_iff_left hid, h.told, isTold_concat_iff (by rintro _ _ _ ⟨⟩)]
      rintro ⟨⟩
      exact hid rfl
  order := by
    have hsub := (List.filter_sublist (p := fun p : Project => p.id != id)
      (l := r.projects)).map (·.id)
    have hne : ∀ a ∈ (r.projects.filter fun p => p.id != id).map (·.id),
        Step.change (.remove id) ≠ .change (.remove a) := by
      rintro a ha ⟨⟩
      obtain ⟨q, hq, hid⟩ := List.mem_map.mp ha
      exact bne_iff_ne.mp (List.mem_filter.mp hq).2 hid
    exact (h.order.sublist hsub).imp_of_mem fun ha hb hab => hab.concat (hne _ ha) (hne _ hb)

/-- A step that enters an identifier that is not registered is the first to enter it. -/
theorem isLeast_length (h : Reflects steps r) {p : Project} (now : Instant)
    (hid : p.id ∉ r.projects.map (·.id)) :
    IsLeast (enteredAt (steps ++ [.change (.upsert p now)]) p.id) steps.length := by
  rw [h.mem_ids_iff, Set.not_nonempty_iff_eq_empty] at hid
  refine ⟨mem_enteredAt_concat_iff.mpr (.inl ⟨rfl, p, now, rfl, rfl⟩), fun i hi => ?_⟩
  rcases mem_enteredAt_concat_iff.mp hi with ⟨rfl, -⟩ | ⟨hi, -⟩
  · exact Nat.le_refl _
  · rw [hid] at hi
    exact absurd hi (Set.notMem_empty i)

/-- The project that a step enters is what the steps tell from then on. -/
theorem isTold_entering (h : Reflects steps r) (p : Project) (now : Instant) :
    IsTold (steps ++ [.change (.upsert p now)]) (r.entering p now) where
  created := by
    have hfind : r.find? p.id = r.projects.find? fun q => q.id == p.id := rfl
    cases hq : r.projects.find? fun q => q.id == p.id with
    | none =>
      have hid : p.id ∉ r.projects.map (·.id) := by simpa using hq
      refine ⟨_, p, now, h.isLeast_length now hid, enters_concat_iff.mpr (.inl ⟨rfl, rfl⟩), ?_⟩
      rw [entering, hfind, hq]
      rfl
    | some q =>
      have hid : q.id = p.id :=
        beq_iff_eq.mp (List.find?_some (p := fun x : Project => x.id == p.id) hq)
      obtain ⟨first, p', now', hfirst, hp', hcreated⟩ :=
        ((h.told q).mp (List.mem_of_find?_eq_some hq)).created
      rw [hid] at hfirst
      refine ⟨first, p', now', isLeast_concat hfirst upsert_ne_remove,
        enters_concat_iff.mpr (.inr ⟨hp', upsert_ne_remove⟩), ?_⟩
      rw [entering, hfind, hq]
      exact hcreated
  fields := by
    refine ⟨steps.length, p, now, ⟨?_, fun i hi => ?_⟩,
      enters_concat_iff.mpr (.inl ⟨rfl, rfl⟩), rfl⟩
    · exact mem_enteredAt_concat_iff.mpr (.inl ⟨rfl, p, now, rfl, rfl⟩)
    · have hlt := lt_length_of_mem_enteredAt hi
      rw [List.length_append, List.length_singleton] at hlt
      exact Nat.le_of_lt_succ hlt

/-- After an entry the registry reflects the run with the entry. -/
theorem upsert (h : Reflects steps r) (p : Project) (now : Instant) :
    Reflects (steps ++ [.change (.upsert p now)]) ((Change.upsert p now).result r) where
  told q := by
    have hentered := h.isTold_entering p now
    rw [Change.result, mem_put_iff h.nodup]
    by_cases hid : q.id = p.id
    · rw [or_iff_left fun hq => hq.2 hid]
      exact ⟨fun hq => hq ▸ hentered, fun hq => hq.unique hentered hid⟩
    · have hne : q ≠ r.entering p now := by
        rintro rfl
        exact hid rfl
      have hother : q ∈ r.projects ∧ q.id ≠ (r.entering p now).id ↔ q ∈ r.projects :=
        and_iff_left hid
      rw [or_iff_right hne, hother, h.told, isTold_concat_iff _ (by rintro ⟨⟩)]
      rintro _ _ hp ⟨⟩
      exact hid hp.symm
  order := by
    have horder : (r.projects.map (·.id)).Pairwise
        (Precedes (steps ++ [.change (.upsert p now)])) :=
      h.order.imp fun hab => hab.concat upsert_ne_remove upsert_ne_remove
    by_cases hid : p.id ∈ r.projects.map (·.id)
    · have hsame := map_id_put_of_mem (p := r.entering p now) hid
      rw [Change.result, hsame]
      exact horder
    · rw [Change.result, put_of_not_mem (p := r.entering p now) hid, List.map_append,
        List.pairwise_append]
      refine ⟨horder, List.pairwise_singleton _ _, fun a ha b hb => ?_⟩
      obtain rfl := List.mem_singleton.mp hb
      obtain ⟨q, hq, rfl⟩ := List.mem_map.mp ha
      obtain ⟨first, -, -, hfirst, -⟩ := ((h.told q).mp hq).created
      exact ⟨first, steps.length, isLeast_concat hfirst upsert_ne_remove, h.isLeast_length now hid,
        lt_length_of_mem_enteredAt hfirst.1⟩

/-- Where only text is entered, only text is registered. -/
theorem isText (h : Reflects steps r) (htext : EntersText steps) : r.IsText := by
  intro q hq
  obtain ⟨last, p, now, -, hp, hfields⟩ := ((h.told q).mp hq).fields
  rw [hfields]
  exact htext p now (List.mem_of_getElem? hp.1)

/-- After a change the registry reflects the run with the change. -/
theorem change (h : Reflects steps r) (c : Change) :
    Reflects (steps ++ [.change c]) (c.result r) := by
  cases c with
  | upsert p now => exact h.upsert p now
  | remove id => exact h.remove id

end Reflects

/-! ## Runs -/

section
variable {shown : String} {start : FileTree Stored} {c : Change} {r r' : Registry}
  {t t' : FileTree Stored} {a : Answer}

/-- A change that succeeds is made in memory, and in the file where both held the same. -/
theorem Change.of_make_ok (shown : String) (h : c.make r t = (r', t', .ok a)) :
    r' = c.result r ∧ a = c.answer r ∧ (load shown t = .ok r → load shown t' = .ok r') := by
  by_cases hwritten : c.IsWritten r
  · rw [make_of_isWritten hwritten] at h
    cases hwrite : ((c.result r).write t).2 with
    | error cause =>
      rw [written_of_error _ hwrite] at h
      cases h
    | ok =>
      rw [written_of_ok _ hwrite] at h
      cases h
      exact ⟨rfl, rfl, fun _ => (load_of_write_ok shown hwrite).1⟩
  · rw [make_of_not_isWritten hwritten] at h
    cases h
    exact ⟨(result_of_not_isWritten hwritten).symm, rfl, id⟩

/-- Where there is room for the registry, every change of text succeeds and leaves room for it. -/
theorem HasRoom.make_ok (h : HasRoom t) (htext : (c.result r).IsText) :
    ∃ t', c.make r t = (c.result r, t', .ok (c.answer r)) ∧ HasRoom t' := by
  by_cases hwritten : c.IsWritten r
  · have hwrite := write_ok_iff.mpr ⟨htext, h⟩
    exact ⟨_, (Change.make_of_isWritten hwritten).trans (written_of_ok _ hwrite),
      (load_of_write_ok "" hwrite).2⟩
  · rw [Change.result_of_not_isWritten hwritten]
    exact ⟨t, Change.make_of_not_isWritten hwritten, h⟩

/-- Removing an identifier tells whether it was registered. -/
theorem removed_iff {id : String} {b : Bool} (h : (r.remove t id).2.2 = .ok b) :
    b = true ↔ id ∈ r.projects.map (·.id) := by
  rcases hout : r.remove t id with ⟨r', t', result⟩
  rw [hout] at h
  subst h
  have hmake : (Change.remove id).make r t = (r', t', .ok (.removed b)) := by
    rw [Change.make, hout]
    rfl
  obtain ⟨-, hanswer, -⟩ := Change.of_make_ok "" hmake
  rw [Answer.removed.inj hanswer, decide_eq_true_iff]

/-- After a run from no registry the file holds what is in memory, and the steps tell what that
is. -/
theorem Runs.reflects (hmissing : start.get? file = none) {steps : List Step}
    (h : Runs shown start steps r t) : load shown t = .ok r ∧ Reflects steps r := by
  induction h with
  | start hload =>
    rw [load_of_missing shown hmissing] at hload
    cases hload
    exact ⟨load_of_missing shown hmissing, reflects_nil⟩
  | change _ hmake ih =>
    obtain ⟨rfl, -, hload⟩ := Change.of_make_ok shown hmake
    exact ⟨hload ih.1, ih.2.change _⟩
  | reload _ hload ih =>
    rw [ih.1] at hload
    cases hload
    exact ⟨ih.1, ih.2.reload⟩

/-- Where there is room for the registry, any steps that enter text make a run. -/
theorem exists_runs (shown : String) (hroom : HasRoom start) (hmissing : start.get? file = none)
    {steps : List Step} (htext : EntersText steps) :
    ∃ r t, Runs shown start steps r t ∧ HasRoom t := by
  induction steps using List.reverseRecOn with
  | nil => exact ⟨_, start, .start (load_of_missing shown hmissing), hroom⟩
  | append_singleton steps step ih =>
    obtain ⟨r, t, hrun, hroom⟩ := ih fun p now hp => htext p now (List.mem_append_left _ hp)
    cases step with
    | change c =>
      have hreflects := (hrun.reflects hmissing).2.change c
      obtain ⟨t', hmake, hroom'⟩ := hroom.make_ok (hreflects.isText htext)
      exact ⟨_, t', .change hrun hmake, hroom'⟩
    | reload => exact ⟨r, t, .reload hrun (hrun.reflects hmissing).1, hroom⟩

end

/-- After every run from no registry the identifiers are distinct, and the registered projects are
those of which the steps tell, in the order in which they were first entered; a removal tells
whether its identifier is registered; and the file, when it is read, gives the very same registry,
so no answer changes. Where there is room for the registry, any steps that enter text make a run.
-/
theorem identities_kept (shown : String) {start : FileTree Stored}
    (hmissing : start.get? file = none) :
    (∀ steps r t, Runs shown start steps r t →
      (r.projects.map (·.id)).Nodup ∧
      (∀ q, q ∈ r.projects ↔ IsTold steps q) ∧
      (r.projects.map (·.id)).Pairwise (Precedes steps) ∧
      (∀ id b, (r.remove t id).2.2 = .ok b → (b = true ↔ id ∈ r.projects.map (·.id))) ∧
      load shown t = .ok r) ∧
    (HasRoom start → ∀ steps, EntersText steps → ∃ r t, Runs shown start steps r t) := by
  refine ⟨fun steps r t hrun => ?_, fun hroom steps htext => ?_⟩
  · obtain ⟨hload, hreflects⟩ := hrun.reflects hmissing
    exact ⟨hreflects.nodup, hreflects.told, hreflects.order, fun id b => removed_iff, hload⟩
  · obtain ⟨r, t, hrun, -⟩ := exists_runs shown hroom hmissing htext
    exact ⟨r, t, hrun⟩

/-- Two projects are entered, and the first of them once more, under another name and with another
time of creation; the other one is removed and entered again; and the file is read. -/
def sampleSteps : List Step :=
  [.change (.upsert { sampleProject with id := "lib" } ⟨1, 0⟩),
    .change (.upsert sampleProject ⟨2, 0⟩),
    .change (.upsert { sampleProject with name := "renamed", created := ⟨3, 0⟩ } ⟨3, 0⟩),
    .change (.remove "lib"),
    .change (.upsert { sampleProject with id := "lib" } ⟨4, 0⟩),
    .reload]

/-- The case of a run that enters projects again and removes one, from a missing document. -/
theorem identities_kept_sampleSteps :
    (.dir [] : FileTree Stored).get? file = none ∧
    ∃ r t, Runs "projects.toml" (.dir []) sampleSteps r t ∧
      r.projects = [{ sampleProject with name := "renamed", updated := ⟨3, 0⟩ },
        { sampleProject with id := "lib", updated := ⟨4, 0⟩ }] ∧
      load "projects.toml" t = .ok r := by
  have hmissing : (.dir [] : FileTree Stored).get? file = none := rfl
  have hstart : Runs "projects.toml" (.dir []) [] {} (.dir []) := .start rfl
  have hlib := Runs.change (c := .upsert { sampleProject with id := "lib" } ⟨1, 0⟩) hstart rfl
  have happ := Runs.change (c := .upsert sampleProject ⟨2, 0⟩) hlib rfl
  have hrenamed := Runs.change
    (c := .upsert { sampleProject with name := "renamed", created := ⟨3, 0⟩ } ⟨3, 0⟩) happ rfl
  have hremoved := Runs.change (c := .remove "lib") hrenamed rfl
  have hagain := Runs.change (c := .upsert { sampleProject with id := "lib" } ⟨4, 0⟩) hremoved rfl
  have hrun := Runs.reload hagain rfl
  exact ⟨hmissing, _, _, hrun, rfl,
    ((identities_kept "projects.toml" hmissing).1 _ _ _ hrun).2.2.2.2⟩

end CallImpact.Registry
