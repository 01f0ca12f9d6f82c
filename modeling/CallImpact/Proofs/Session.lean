import CallImpact.Session
import CallImpact.Proofs.FileTree

/-!
# Operations in a world

`Session.exec` gives the result of an operation and the world that it leaves. There is one equation
for each way to build an operation and for each primitive one, so a specification of an operation is
found by following its text. An operation that `Spares` the world leaves the store, the registry and
the clock alone, and one that `Looks` changes nothing.
-/

namespace CallImpact.Session

section
variable {ε ε' α β : Type} {host : Host} {w w' : World}

/-- What an operation gives in a world, and the world that it leaves. -/
def exec (m : ExceptT ε Session α) (host : Host) (w : World) : Except ε α × World :=
  m host w

/-! ## Ways to build operations -/

@[simp] theorem exec_pure (a : α) :
    exec (pure a : ExceptT ε Session α) host w = (.ok a, w) := rfl

@[simp] theorem exec_throw (e : ε) :
    exec (throw e : ExceptT ε Session α) host w = (.error e, w) := rfl

/-- What follows an operation that works out goes on from its result. -/
theorem exec_bind_ok {m : ExceptT ε Session α} {k : α → ExceptT ε Session β} {a : α}
    (h : exec m host w = (.ok a, w')) : exec (m >>= k) host w = exec (k a) host w' := by
  unfold exec at h ⊢
  simp only [bind, ExceptT.bind, ExceptT.mk, ReaderT.bind, StateT.bind, h]
  rfl

/-- What follows an operation that fails is left out. -/
theorem exec_bind_error {m : ExceptT ε Session α} {k : α → ExceptT ε Session β} {e : ε}
    (h : exec m host w = (.error e, w')) : exec (m >>= k) host w = (.error e, w') := by
  unfold exec at h ⊢
  simp only [bind, ExceptT.bind, ExceptT.mk, ReaderT.bind, StateT.bind, h]
  rfl

/-- Two operations in a row work out when both do. -/
theorem of_exec_bind {m : ExceptT ε Session α} {k : α → ExceptT ε Session β} {b : β}
    (h : exec (m >>= k) host w = (.ok b, w')) :
    ∃ a w₁, exec m host w = (.ok a, w₁) ∧ exec (k a) host w₁ = (.ok b, w') := by
  rcases hm : exec m host w with ⟨e | a, w₁⟩
  · rw [exec_bind_error hm] at h
    cases h
  · rw [exec_bind_ok hm] at h
    exact ⟨a, w₁, rfl, h⟩

/-- An operation of which a part of the result is known works out. -/
theorem exists_ok_of_map {m : ExceptT ε Session α} {f : α → β} {b : β}
    (h : (exec m host w).1.map f = .ok b) : ∃ a w', exec m host w = (.ok a, w') ∧ f a = b := by
  rcases hm : exec m host w with ⟨e | a, w'⟩
  · rw [hm] at h
    cases h
  · rw [hm] at h
    exact ⟨a, w', rfl, Except.ok.inj h⟩

/-- A computation that cannot fail. -/
@[simp] theorem exec_lift (m : Session α) :
    exec (monadLift m : ExceptT ε Session α) host w = (.ok (m host w).1, (m host w).2) := rfl

@[simp] theorem exec_get : exec (get : ExceptT ε Session World) host w = (.ok w, w) := rfl

@[simp] theorem exec_read : exec (read : ExceptT ε Session Host) host w = (.ok host, w) := rfl

/-- Reading the clock gives its time and counts the reading. -/
theorem exec_now : exec (monadLift now : ExceptT ε Session Instant) host w =
    (.ok (host.clock w.readings), { w with readings := w.readings + 1 }) := rfl

/-- A report is added to the progress and changes nothing else. -/
theorem exec_report (percent : Nat) (message : String) :
    exec (monadLift (report percent message) : ExceptT ε Session Unit) host w =
      (.ok (), { w with progress := w.progress ++ [⟨percent, message⟩] }) := rfl

/-- An operation on the store changes the store and adds its steps to the progress. -/
theorem exec_onStoreReporting {f : Store → Store × List Progress × Except Error α} {s : Store}
    {steps : List Progress} {r : Except Error α} (h : f w.store = (s, steps, r)) :
    exec (onStoreReporting f) host w =
      (r, { w with store := s, progress := w.progress ++ steps }) := by
  change ((f w.store).2.2, { w with
    store := (f w.store).1, progress := w.progress ++ (f w.store).2.1 }) = _
  rw [h]

/-- The result of an operation that is attempted is kept, whether it failed or not. -/
@[simp] theorem exec_attempt (m : ExceptT ε Session α) :
    exec (attempt m) host w = (.ok (exec m host w).1, (exec m host w).2) := rfl

/-- Wording an error differently changes nothing else. -/
@[simp] theorem exec_adapt (f : ε → ε') (m : ExceptT ε Session α) :
    exec (ExceptT.adapt f m) host w = ((exec m host w).1.mapError f, (exec m host w).2) := rfl

@[simp] theorem exec_ofExcept (r : Except Error α) :
    exec (ofExcept r : Action α) host w = (r, w) := by
  cases r <;> rfl

/-- What succeeds needs no handler. -/
theorem exec_tryCatch_ok {m : ExceptT ε Session α} {k : ε → ExceptT ε Session α} {a : α}
    (h : exec m host w = (.ok a, w')) : exec (tryCatch m k) host w = (.ok a, w') := by
  unfold exec at h ⊢
  simp only [tryCatch, tryCatchThe, MonadExceptOf.tryCatch, ExceptT.tryCatch, ExceptT.mk, bind,
    ReaderT.bind, StateT.bind, h]
  rfl

/-- What fails goes on with its handler, in the world it left. -/
theorem exec_tryCatch_error {m : ExceptT ε Session α} {k : ε → ExceptT ε Session α} {e : ε}
    (h : exec m host w = (.error e, w')) : exec (tryCatch m k) host w = exec (k e) host w' := by
  unfold exec at h ⊢
  simp only [tryCatch, tryCatchThe, MonadExceptOf.tryCatch, ExceptT.tryCatch, ExceptT.mk, bind,
    ReaderT.bind, StateT.bind, h]

end

/-! ## What the program keeps for itself -/

/-- Whether the store, the registry and the clock are as they were. -/
structure Untouched (w w' : World) : Prop where
  store : w'.store = w.store
  registry : w'.registry = w.registry
  readings : w'.readings = w.readings

namespace Untouched

variable {w w₁ w₂ : World}

/-- A world is untouched by nothing. -/
protected theorem refl (w : World) : Untouched w w := ⟨rfl, rfl, rfl⟩

/-- What is left untouched twice in a row is left untouched. -/
theorem trans (h : Untouched w w₁) (h' : Untouched w₁ w₂) : Untouched w w₂ :=
  ⟨h'.store.trans h.store, h'.registry.trans h.registry, h'.readings.trans h.readings⟩

end Untouched

section
variable {ε ε' α β : Type} {m : ExceptT ε Session α} {k : α → ExceptT ε Session β}

/-- Whether an operation never touches what the program keeps for itself. -/
def Spares (m : ExceptT ε Session α) : Prop :=
  ∀ host w, Untouched w (exec m host w).2

/-- One sparing operation after another is sparing. -/
theorem Spares.bind (hm : Spares m) (hk : ∀ a, Spares (k a)) : Spares (m >>= k) := by
  intro host w
  have hw := hm host w
  rcases h : exec m host w with ⟨e | a, w₁⟩
  · rw [h] at hw
    rw [exec_bind_error h]
    exact hw
  · rw [h] at hw
    rw [exec_bind_ok h]
    exact hw.trans (hk a host w₁)

/-! ## Looking -/

/-- Whether the working trees and the registry of two worlds are the same. -/
structure SameSight (w w' : World) : Prop where
  trees : w'.trees = w.trees
  registry : w'.registry = w.registry

/-- Whether an operation leaves every world as it is, and goes by the working trees and the registry
alone. -/
structure Looks (m : ExceptT ε Session α) : Prop where
  world : ∀ host w, (exec m host w).2 = w
  result : ∀ host {w w'}, SameSight w w' → (exec m host w').1 = (exec m host w).1

/-- An operation that only looks answers alike in worlds that look alike. -/
theorem Looks.exec_eq (h : Looks m) (host : Host) {w w' : World} (hw : SameSight w w') :
    exec m host w' = ((exec m host w).1, w') :=
  Prod.ext (h.result host hw) (h.world host w')

/-- An operation that only looks leaves the world as it was. -/
theorem Looks.eq_of_exec (h : Looks m) {host : Host} {w w' : World} {r : Except ε α}
    (hr : exec m host w = (r, w')) : w' = w := by
  rw [← h.world host w, hr]

/-- An operation that only looks is sparing. -/
theorem Looks.spares (h : Looks m) : Spares m := by
  intro host w
  rw [h.world host w]
  exact .refl w

/-- Answering at once only looks. -/
theorem looks_pure (a : α) : Looks (pure a : ExceptT ε Session α) :=
  ⟨fun _ _ => rfl, fun _ _ _ _ => rfl⟩

/-- Failing at once only looks. -/
theorem looks_throw (e : ε) : Looks (throw e : ExceptT ε Session α) :=
  ⟨fun _ _ => rfl, fun _ _ _ _ => rfl⟩

/-- Asking for the host only looks. -/
theorem looks_read : Looks (read : ExceptT ε Session Host) :=
  ⟨fun _ _ => rfl, fun _ _ _ _ => rfl⟩

/-- Errors told otherwise do not keep an operation from only looking. -/
theorem Looks.adapt (h : Looks m) (f : ε → ε') : Looks (ExceptT.adapt f m) :=
  ⟨h.world, fun host _ _ hw => by rw [exec_adapt, exec_adapt, h.result host hw]⟩

/-- One operation that only looks after another only looks. -/
theorem Looks.bind (hm : Looks m) (hk : ∀ a, Looks (k a)) : Looks (m >>= k) := by
  refine ⟨fun host w => ?_, fun host w w' hw => ?_⟩
  · rcases h : exec m host w with ⟨e | a, w₁⟩
    · rw [exec_bind_error h, hm.eq_of_exec h]
    · rw [exec_bind_ok h, (hk a).world, hm.eq_of_exec h]
  · have hm' := hm.exec_eq host hw
    rcases h : exec m host w with ⟨e | a, w₁⟩
    · rw [h] at hm'
      rw [exec_bind_error h, exec_bind_error hm']
    · rw [h] at hm'
      rw [exec_bind_ok h, exec_bind_ok hm', hm.eq_of_exec h]
      exact (hk a).result host hw

/-- What follows a look at the world has to go by the working trees and the registry. -/
theorem looks_get_bind {k : World → ExceptT ε Session β} (hk : ∀ w, Looks (k w))
    (hsame : ∀ {w w'}, SameSight w w' → k w' = k w) : Looks (get >>= k) := by
  refine ⟨fun host w => ?_, fun host w w' hw => ?_⟩
  · rw [exec_bind_ok exec_get]
    exact (hk w).world host w
  · rw [exec_bind_ok exec_get, exec_bind_ok exec_get, hsame hw]
    exact (hk w).result host hw

end

/-! ## Commands -/

/-- Whether a command has succeeded. -/
def Succeeded : Ended → Prop
  | .exited 0 _ _ => True
  | _ => False

/-- A command has an output only when it exited with success. -/
theorem outcome_eq_ok {i : Invocation} {limit : Nat} {ended : Ended} {out : String}
    (h : outcome i limit ended = .ok out) : ∃ err, ended = .exited 0 out err := by
  unfold outcome at h
  split at h
  · cases h
    exact ⟨_, rfl⟩
  · cases h
  · cases h
  · cases h

/-- A command that fails did not succeed. -/
theorem outcome_eq_error {i : Invocation} {limit : Nat} {ended : Ended} {e : VcsError}
    (h : outcome i limit ended = .error e) : ¬ Succeeded ended := by
  unfold outcome at h
  split at h
  · cases h
  · rename_i status out err hstatus
    intro hs
    cases status with
    | zero => exact hstatus rfl
    | succ n => exact hs
  · exact id
  · exact id

/-- A command that has run to its end was started. -/
theorem replyIn_of_exited {host : Host} {w : World} {dir : Path} {i : Invocation} {limit : Nat}
    {status : Nat} {out err : String}
    (h : (replyIn host w dir i limit).ended = .exited status out err) :
    replyIn host w dir i limit = host.reply w.events.length w.ran i limit := by
  unfold replyIn at h ⊢
  split at h
  · rfl
  · cases h
  · cases h

/-- Whether a command for version control may succeed and write a text. -/
def Writes (host : Host) (c : GitCommand) (out : String) : Prop :=
  ∃ turn before limit err,
    (host.reply turn before (c.invocation host.root) limit).ended = .exited 0 out err

/-- A world after one event, with the working trees that it leaves. -/
structure After (w : World) (event : Event) (trees : FileTree Content) (w' : World) : Prop where
  events : w'.events = w.events ++ [event]
  trees : w'.trees = trees
  untouched : Untouched w w'

/-- A command for version control gives what it writes when it succeeds, and fails when it fails;
either way it has run and has had its effect. -/
theorem git_cases (dir : Path) (c : GitCommand) (limit : Nat) (host : Host) (w : World) :
    ∃ reply w₁, reply = replyIn host w dir (c.invocation host.root) limit ∧
      After w (.git dir c reply.ended) (c.effect reply w.trees) w₁ ∧
      ((∃ out err, exec (git dir c limit) host w = (.ok out, w₁) ∧
        reply.ended = .exited 0 out err) ∨
        ∃ e, exec (git dir c limit) host w = (.error e, w₁) ∧
          outcome (c.invocation host.root) limit reply.ended = .error e) := by
  rcases hgit : exec (git dir c limit) host w with ⟨e | out, w₁⟩
  · obtain ⟨houtcome, hw⟩ := Prod.mk.inj hgit
    exact ⟨_, w₁, rfl, by subst hw; exact ⟨rfl, rfl, ⟨rfl, rfl, rfl⟩⟩, .inr ⟨e, rfl, houtcome⟩⟩
  · obtain ⟨houtcome, hw⟩ := Prod.mk.inj hgit
    obtain ⟨err, hended⟩ := outcome_eq_ok houtcome
    exact ⟨_, w₁, rfl, by subst hw; exact ⟨rfl, rfl, ⟨rfl, rfl, rfl⟩⟩, .inl ⟨out, err, rfl, hended⟩⟩

/-- Another command runs and changes no working tree. -/
theorem run_cases (dir : Path) (i : Invocation) (limit : Nat) (host : Host) (w : World) :
    ∃ ended, After w (.ran dir i ended) w.trees (exec (run dir i limit) host w).2 :=
  ⟨_, rfl, rfl, ⟨rfl, rfl, rfl⟩⟩

/-- Deleting leaves nothing at a path. -/
theorem delete_after (path : Path) (host : Host) (w : World) :
    After w (.deleted path) (FileTree.remove path w.trees) (delete path host w).2 :=
  ⟨rfl, rfl, ⟨rfl, rfl, rfl⟩⟩

end CallImpact.Session
