import CallImpact.Construct.Budget
import Mathlib.Algebra.Ring.Nat
import Mathlib.Data.List.Forall2

/-!
# What computations with a budget ensure

`Ensures allowed m post` says of a computation, for every budget, that what it gives has a
property and that it fails only for allowed causes. There is one rule for each way to build a
computation, so the specification of a construction follows its text.

`Costs m n a` says that a computation takes `n` steps and gives `a`: with fewer steps it fails for
want of them, and with as many or more it gives `a` and leaves the rest. The costs of a
computation add up along its text. `Settles allowed m post` says that a computation has a cost and
gives something with a property, or fails for an allowed cause after a number of steps that does
not depend on the budget either; so it ensures the property (`Settles.ensures`), and has a cost
when no cause is allowed (`Settles.exists_costs`).
-/

namespace CallImpact

/-- What a computation gives has a property, and it fails only for allowed causes. -/
def Ensures {α : Type} (allowed : Cause → Prop) (m : Budgeted α) (post : α → Prop) : Prop :=
  ∀ budget, match m budget with
    | .ok (a, _) => post a
    | .error cause => allowed cause

/-! ## Runs -/

namespace Budgeted

variable {α β : Type}

/-- A run that gives something leaves some budget. -/
theorem exists_of_run {m : Budgeted α} {budget : Nat} {a : α} (h : m.run budget = .ok a) :
    ∃ rest, m budget = .ok (a, rest) := by
  unfold Budgeted.run at h
  cases hr : m budget with
  | error cause =>
    rw [hr] at h
    cases h
  | ok result =>
    rw [hr] at h
    cases h
    exact ⟨result.2, rfl⟩

/-- What comes after a computation starts from what that gives and leaves. -/
theorem of_bind_ok {m : Budgeted α} {k : α → Budgeted β} {budget rest : Nat} {b : β}
    (h : (m >>= k) budget = .ok (b, rest)) :
    ∃ a left, m budget = .ok (a, left) ∧ k a left = .ok (b, rest) := by
  have hrun : (m >>= k) budget = (m budget).bind fun x => k x.1 x.2 := rfl
  rw [hrun] at h
  cases hr : m budget with
  | error cause =>
    rw [hr] at h
    cases h
  | ok result =>
    rw [hr] at h
    exact ⟨result.1, result.2, rfl, h⟩

end Budgeted

/-! ## Contracts -/

/-- What is listed for one of some elements, when the elements of each list are known. -/
theorem mem_flatten_of_forall₂ {α β : Type} {post : α → β → Prop} {xs : List α}
    {rows : List (List β)} (h : List.Forall₂ (fun x row => ∀ y, y ∈ row ↔ post x y) xs rows)
    (y : β) : y ∈ rows.flatten ↔ ∃ x ∈ xs, post x y := by
  induction h with
  | nil => simp
  | cons hrow _ ih => rw [List.flatten_cons, List.mem_append, hrow, ih, List.exists_mem_cons_iff]

namespace Ensures

variable {α β : Type} {allowed : Cause → Prop}

/-- A property that follows from an ensured one is ensured. -/
theorem mono {m : Budgeted α} {post post' : α → Prop} (h : Ensures allowed m post)
    (himp : ∀ a, post a → post' a) : Ensures allowed m post' := by
  intro budget
  have hm := h budget
  split at hm
  · exact himp _ hm
  · exact hm

/-- What is ensured twice is ensured together. -/
protected theorem and {m : Budgeted α} {post post' : α → Prop} (h : Ensures allowed m post)
    (h' : Ensures allowed m post') : Ensures allowed m fun a => post a ∧ post' a := by
  intro budget
  have hm := h budget
  have hm' := h' budget
  cases hr : m budget with
  | error cause => simpa [hr] using hm
  | ok result =>
    rw [hr] at hm hm'
    exact ⟨hm, hm'⟩

/-- What is ensured for each value of a parameter is ensured for all of them. -/
protected theorem all {ι : Sort*} {m : Budgeted α} {post : ι → α → Prop}
    (h : ∀ i, Ensures (fun _ => True) m (post i)) :
    Ensures (fun _ => True) m fun a => ∀ i, post i a := by
  intro budget
  split
  · rename_i hm
    exact fun i => by simpa [hm] using h i budget
  · trivial

/-- A value ensures the properties that it has. -/
protected theorem pure {a : α} {post : α → Prop} (h : post a) :
    Ensures allowed (pure a : Budgeted α) post :=
  fun _ => h

/-- A failure ensures everything when its cause is allowed. -/
protected theorem throw {cause : Cause} {post : α → Prop} (h : allowed cause) :
    Ensures allowed (throw cause : Budgeted α) post :=
  fun _ => h

/-- What comes after a computation may rely on what that ensures. -/
protected theorem bind {m : Budgeted α} {k : α → Budgeted β} {post : α → Prop} {post' : β → Prop}
    (hm : Ensures allowed m post) (hk : ∀ a, post a → Ensures allowed (k a) post') :
    Ensures allowed (m >>= k) post' := by
  intro budget
  have hb := hm budget
  cases hr : m budget with
  | error cause =>
    rw [hr] at hb
    simpa [bind, StateT.bind, Except.bind, hr] using hb
  | ok result =>
    rw [hr] at hb
    simpa [bind, StateT.bind, Except.bind, hr] using hk _ hb result.2

/-- Looking at the budget never fails. -/
protected theorem get : Ensures allowed (get : Budgeted Nat) fun _ => True :=
  fun _ => trivial

/-- A step ensures nothing, and fails when there is none left. -/
protected theorem tick (h : allowed .outOfSteps) : Ensures allowed tick fun _ => True := by
  intro budget
  cases budget with
  | zero => exact h
  | succ n => trivial

/-- A number that has no element is the only reason why an element is not found. -/
protected theorem element {xs : List α} {i : Nat}
    (h : xs.length ≤ i → allowed (.outOfBounds xs.length i)) :
    Ensures allowed (element xs i) fun x => xs[i]? = some x := by
  intro budget
  unfold CallImpact.element
  cases hx : xs[i]? with
  | none => exact h (List.getElem?_eq_none_iff.mp hx)
  | some x => rfl

/-- What is done to each element of a list is ensured of all of them. -/
protected theorem mapM {f : α → Budgeted β} {post : α → β → Prop} {xs : List α}
    (h : ∀ x ∈ xs, Ensures allowed (f x) (post x)) :
    Ensures allowed (xs.mapM f) fun ys => List.Forall₂ post xs ys := by
  induction xs with
  | nil => exact .pure .nil
  | cons x xs ih =>
    rw [List.mapM_cons]
    refine (h x List.mem_cons_self).bind fun y hy => ?_
    refine (ih fun z hz => h z (List.mem_cons_of_mem x hz)).bind fun ys hys => ?_
    exact .pure (.cons hy hys)

/-- What is listed for each element of a list. -/
theorem mapM_flatten {f : α → Budgeted (List β)} {post : α → β → Prop} {xs : List α}
    (h : ∀ x ∈ xs, Ensures allowed (f x) fun row => ∀ y, y ∈ row ↔ post x y) :
    Ensures allowed (xs.mapM f) fun rows => ∀ y, y ∈ rows.flatten ↔ ∃ x ∈ xs, post x y :=
  (Ensures.mapM h).mono fun _ hrows => mem_flatten_of_forall₂ hrows

/-- What a computation gives with some budget. -/
theorem of_ok {m : Budgeted α} {post : α → Prop} (h : Ensures allowed m post) {budget rest : Nat}
    {a : α} (hm : m budget = .ok (a, rest)) : post a := by
  have hb := h budget
  rw [hm] at hb
  exact hb

/-- What a run gives. -/
theorem of_run {m : Budgeted α} {post : α → Prop} (h : Ensures allowed m post)
    {budget : Nat} {a : α}
    (hrun : m.run budget = .ok a) : post a := by
  obtain ⟨rest, hm⟩ := Budgeted.exists_of_run hrun
  exact h.of_ok hm

/-- Why a run fails. -/
theorem of_run_error {m : Budgeted α} {post : α → Prop} (h : Ensures allowed m post)
    {budget : Nat} {cause : Cause} (hrun : m.run budget = .error cause) : allowed cause := by
  have hb := h budget
  unfold Budgeted.run at hrun
  cases hr : m budget with
  | error cause' =>
    rw [hr] at hrun hb
    cases hrun
    exact hb
  | ok result =>
    rw [hr] at hrun
    cases hrun

end Ensures

/-! ## Costs and failures -/

/-- A computation takes a number of steps, whatever the budget is, and gives a value. -/
def Costs {α : Type} (m : Budgeted α) (n : Nat) (a : α) : Prop :=
  ∀ budget, m budget = if budget < n then .error .outOfSteps else .ok (a, budget - n)

namespace Costs

variable {α β : Type} {m : Budgeted α} {n : Nat} {a : α}

/-- A value costs nothing. -/
protected theorem pure (a : α) : Costs (pure a : Budgeted α) 0 a := by
  intro budget
  rw [if_neg (Nat.not_lt_zero budget)]
  rfl

/-- Looking up an element that there is costs nothing. -/
protected theorem element {xs : List α} {i : Nat} {x : α} (h : xs[i]? = some x) :
    Costs (element xs i) 0 x := by
  intro budget
  rw [if_neg (Nat.not_lt_zero budget), element, h]
  rfl

/-- One step, and then what the rest costs. -/
theorem step {rest : Budgeted α} (hzero : m 0 = .error .outOfSteps)
    (hsucc : ∀ budget, m (budget + 1) = rest budget) (h : Costs rest n a) : Costs m (n + 1) a := by
  intro budget
  cases budget with
  | zero => rw [hzero, if_pos (Nat.succ_pos n)]
  | succ budget =>
    rw [hsucc, h, Nat.add_sub_add_right]
    simp only [Nat.add_lt_add_iff_right]

/-- A step costs one. -/
protected theorem tick : Costs tick 1 () :=
  step rfl (fun _ => rfl) (Costs.pure ())

/-- What comes after a computation has the steps that it leaves. -/
theorem bind_apply (hm : Costs m n a) (k : α → Budgeted β) (budget : Nat) :
    (m >>= k) budget = if budget < n then .error .outOfSteps else k a (budget - n) := by
  have hrun : (m >>= k) budget = (m budget).bind fun x => k x.1 x.2 := rfl
  rw [hrun, hm]
  split
  · rfl
  · rfl

/-- The costs of two computations in a row add up. -/
protected theorem bind {k : α → Budgeted β} {n' : Nat} {b : β} (hm : Costs m n a)
    (hk : Costs (k a) n' b) : Costs (m >>= k) (n + n') b := by
  intro budget
  rw [hm.bind_apply]
  by_cases hlt : budget < n
  · rw [if_pos hlt, if_pos (Nat.lt_of_lt_of_le hlt (Nat.le_add_right n n'))]
  · rw [if_neg hlt, hk, Nat.sub_sub]
    have hiff : budget - n < n' ↔ budget < n + n' := by omega
    simp only [hiff]

/-- What is made of a value at the end costs nothing. -/
theorem bind_pure {f : α → β} (h : Costs m n a) :
    Costs (m >>= fun x => pure (f x)) n (f a) := by
  have hbind := h.bind (k := fun x => pure (f x)) (Costs.pure (f a))
  exact hbind

/-- What is done to each element of a list costs what it costs for all of them together. -/
protected theorem mapM {f : α → Budgeted β} {cost : α → Nat} {g : α → β} {xs : List α}
    (h : ∀ x ∈ xs, Costs (f x) (cost x) (g x)) :
    Costs (xs.mapM f) (xs.map cost).sum (xs.map g) := by
  induction xs with
  | nil => exact .pure []
  | cons x xs ih =>
    have hxs := ih fun y hy => h y (List.mem_cons_of_mem x hy)
    rw [List.mapM_cons, List.map_cons, List.sum_cons]
    exact (h x List.mem_cons_self).bind hxs.bind_pure

/-- A computation with a cost fails only for want of steps, and gives one thing only. -/
theorem ensures {allowed : Cause → Prop} (h : Costs m n a) (hsteps : allowed .outOfSteps) :
    Ensures allowed m (· = a) := by
  intro budget
  rw [h]
  by_cases hlt : budget < n
  · rwa [if_pos hlt]
  · rw [if_neg hlt]

/-- A run gives what the computation gives after its steps. -/
theorem eq_of_run {budget : Nat} {b : α} (h : Costs m n a) (hrun : m.run budget = .ok b) : b = a :=
  Ensures.of_run (h.ensures trivial : Ensures (fun _ => True) m (· = a)) hrun

/-- What a computation gives has the properties that it ensures. -/
theorem ensured {allowed : Cause → Prop} {post : α → Prop} (h : Costs m n a)
    (hm : Ensures allowed m post) : post a := by
  have hrun := hm n
  rw [h n, if_neg (Nat.lt_irrefl n)] at hrun
  exact hrun

end Costs

/-- A computation takes a number of steps, whatever the budget is, and then fails for a cause. -/
def FailsAfter {α : Type} (m : Budgeted α) (n : Nat) (cause : Cause) : Prop :=
  ∀ budget, m budget = if budget < n then .error .outOfSteps else .error cause

/-- What comes after a failure does not matter. -/
theorem FailsAfter.bind {α β : Type} {m : Budgeted α} {n : Nat} {cause : Cause}
    (h : FailsAfter m n cause)
    (k : α → Budgeted β) : FailsAfter (m >>= k) n cause := by
  intro budget
  have hrun : (m >>= k) budget = (m budget).bind fun x => k x.1 x.2 := rfl
  rw [hrun, h]
  split
  · rfl
  · rfl

/-- A failure after some steps. -/
theorem Costs.bind_failsAfter {α β : Type} {m : Budgeted α} {k : α → Budgeted β}
    {n n' : Nat} {a : α}
    {cause : Cause} (hm : Costs m n a) (hk : FailsAfter (k a) n' cause) :
    FailsAfter (m >>= k) (n + n') cause := by
  intro budget
  rw [hm.bind_apply]
  by_cases hlt : budget < n
  · rw [if_pos hlt, if_pos (Nat.lt_of_lt_of_le hlt (Nat.le_add_right n n'))]
  · rw [if_neg hlt, hk]
    have hiff : budget - n < n' ↔ budget < n + n' := by omega
    simp only [hiff]

/-- A computation takes some number of steps, whatever the budget is. Then it gives something with a
property, or fails for an allowed cause. -/
def Settles {α : Type} (allowed : Cause → Prop) (m : Budgeted α) (post : α → Prop) : Prop :=
  ∃ n, (∃ a, Costs m n a ∧ post a) ∨ ∃ cause, FailsAfter m n cause ∧ allowed cause

namespace Settles

variable {α β : Type} {allowed : Cause → Prop} {m : Budgeted α} {post : α → Prop}

/-- A computation that settles fails for want of steps or for an allowed cause. -/
theorem ensures (h : Settles allowed m post) (hsteps : allowed .outOfSteps) :
    Ensures allowed m post := by
  intro budget
  obtain ⟨n, ⟨a, hcost, hpost⟩ | ⟨cause, hfails, hcause⟩⟩ := h
  · rw [hcost]
    by_cases hlt : budget < n
    · rwa [if_pos hlt]
    · rwa [if_neg hlt]
  · rw [hfails]
    by_cases hlt : budget < n
    · rwa [if_pos hlt]
    · rwa [if_neg hlt]

/-- A computation that settles and has no cause to fail has a cost. -/
theorem exists_costs (h : Settles (fun _ => False) m post) : ∃ n a, Costs m n a := by
  obtain ⟨n, ⟨a, hcost, -⟩ | ⟨-, -, hnone⟩⟩ := h
  · exact ⟨n, a, hcost⟩
  · exact hnone.elim

/-- A computation that settles with a property settles with one that follows from it. -/
theorem mono {post' : α → Prop} (h : Settles allowed m post) (himp : ∀ a, post a → post' a) :
    Settles allowed m post' := by
  obtain ⟨n, h⟩ := h
  exact ⟨n, h.imp_left fun ⟨a, hcost, hpost⟩ => ⟨a, hcost, himp a hpost⟩⟩

/-- What a computation gives has the properties that it ensures. -/
theorem ensured {allowed' : Cause → Prop} {post' : α → Prop} (h : Settles allowed m post)
    (hm : Ensures allowed' m post') : Settles allowed m post' := by
  obtain ⟨n, h⟩ := h
  exact ⟨n, h.imp_left fun ⟨a, hcost, _⟩ => ⟨a, hcost, hcost.ensured hm⟩⟩

/-- A value settles with the properties that it has. -/
protected theorem pure {a : α} (h : post a) : Settles allowed (pure a : Budgeted α) post :=
  ⟨0, .inl ⟨a, .pure a, h⟩⟩

/-- What comes after a computation that settles may rely on the property of what that gives. -/
protected theorem bind {k : α → Budgeted β} {post' : β → Prop} (hm : Settles allowed m post)
    (hk : ∀ a, post a → Settles allowed (k a) post') : Settles allowed (m >>= k) post' := by
  obtain ⟨n, ⟨a, hcost, hpost⟩ | ⟨cause, hfails, hcause⟩⟩ := hm
  · obtain ⟨n', ⟨b, hcost', hpost'⟩ | ⟨cause, hfails, hcause⟩⟩ := hk a hpost
    · exact ⟨n + n', .inl ⟨b, hcost.bind hcost', hpost'⟩⟩
    · exact ⟨n + n', .inr ⟨cause, hcost.bind_failsAfter hfails, hcause⟩⟩
  · exact ⟨n, .inr ⟨cause, hfails.bind k, hcause⟩⟩

/-- A step settles. -/
protected theorem tick : Settles allowed tick fun _ => True :=
  ⟨1, .inl ⟨(), .tick, trivial⟩⟩

/-- A number that has no element is the only reason why an element is not found. -/
protected theorem element {xs : List α} {i : Nat}
    (h : xs.length ≤ i → allowed (.outOfBounds xs.length i)) :
    Settles allowed (element xs i) fun x => xs[i]? = some x := by
  cases hx : xs[i]? with
  | some x => exact ⟨0, .inl ⟨x, .element hx, rfl⟩⟩
  | none =>
    refine ⟨0, .inr ⟨_, fun budget => ?_, h (List.getElem?_eq_none_iff.mp hx)⟩⟩
    rw [if_neg (Nat.not_lt_zero budget), element, hx]

/-- What is done to each element of a list settles for all of them. -/
protected theorem mapM {f : α → Budgeted β} {post : α → β → Prop} {xs : List α}
    (h : ∀ x ∈ xs, Settles allowed (f x) (post x)) :
    Settles allowed (xs.mapM f) fun ys => List.Forall₂ post xs ys := by
  induction xs with
  | nil => exact .pure .nil
  | cons x xs ih =>
    rw [List.mapM_cons]
    refine (h x List.mem_cons_self).bind fun y hy => ?_
    refine (ih fun z hz => h z (List.mem_cons_of_mem x hz)).bind fun ys hys => ?_
    exact .pure (.cons hy hys)

/-- What settles alike for each element of a list. -/
theorem mapM_forall {f : α → Budgeted β} {post : β → Prop} {xs : List α}
    (h : ∀ x ∈ xs, Settles allowed (f x) post) :
    Settles allowed (xs.mapM f) fun ys => ∀ y ∈ ys, post y := by
  refine (Settles.mapM h).mono fun ys hys => ?_
  induction hys with
  | nil => simp
  | cons hy _ ih =>
    exact List.forall_mem_cons.mpr ⟨hy, ih fun x hx => h x (List.mem_cons_of_mem _ hx)⟩

end Settles

end CallImpact
