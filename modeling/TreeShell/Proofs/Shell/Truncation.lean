import TreeShell.Proofs.Shell.Frame

/-!
# A limited output cuts a run short

The same computation is run twice, once on an output that takes `limit` bytes in
all and once on an output without a limit. The two runs stay in step
(`Shell.InStep`) as long as what is written fits. From the first write that does
not fit the limited run is cut (`Shell.Cut`): its output is full and holds the
first `limit` bytes of what the other run has written, which only grows from
there on (`Shell.Grows`).

`Truncates` says that nothing else can happen to a computation. It is closed under
a second part that also sees the faults of the first (`truncates_handle`), and so
under binds. The three relations are put together in a `Comparison`, since they
are also needed for states that hold more than a shell.
-/

namespace TreeShell

/-- How the states of two runs are compared: while nothing was refused, after a
write was refused, and how the second run goes on by itself. -/
structure Comparison (σ : Type) where
  InStep : σ → σ → Prop
  Cut : σ → σ → Prop
  Grows : σ → σ → Prop
  grows_refl : ∀ s, Grows s s
  grows_trans : ∀ s t u, Grows s t → Grows t u → Grows s u
  cut_of_grows : ∀ s t u, Cut s t → Grows t u → Cut s u

variable {σ α β : Type}

/-- Both results are the same, from runs that are in step, or the first run was
stopped by its output. -/
inductive Comparison.Results (k : Comparison σ) :
    EStateM.Result Fault σ α → EStateM.Result Fault σ α → Prop
  | ok {a : α} {s s' : σ} (h : k.InStep s s') : Results k (.ok a s) (.ok a s')
  | error {e : Fault} {s s' : σ} (h : k.InStep s s') : Results k (.error e s) (.error e s')
  | cut {s : σ} {r : EStateM.Result Fault σ α} (h : k.Cut s (outcomeState r)) :
    Results k (.error .outputClosed s) r

/-- From states in step the computation ends alike, or the first run is cut. -/
structure Truncates (k : Comparison σ) (m : EStateM Fault σ α) : Prop where
  results : ∀ s s', k.InStep s s' → k.Results (m s) (m s')
  grows : ∀ s, k.Grows s (outcomeState (m s))

/-- The computation `m` and then `f`, or `g` if `m` ended with a fault. -/
def handle (m : EStateM Fault σ α) (f : α → EStateM Fault σ β) (g : Fault → EStateM Fault σ β) :
    EStateM Fault σ β := fun s =>
  match m s with
  | .ok a t => f a t
  | .error e t => g e t

section Handle

variable {m : EStateM Fault σ α} {f : α → EStateM Fault σ β} {g : Fault → EStateM Fault σ β}
  {s t : σ}

theorem handle_of_ok {a : α} (h : m s = .ok a t) : handle m f g s = f a t := by
  rw [handle, h]

theorem handle_of_error {e : Fault} (h : m s = .error e t) : handle m f g s = g e t := by
  rw [handle, h]

/-- A bind hands a fault on. -/
theorem bind_eq_handle (m : EStateM Fault σ α) (f : α → EStateM Fault σ β) :
    m >>= f = handle m f throw := by
  funext s
  cases hm : m s with
  | ok a t => rw [bind_of_ok hm, handle_of_ok hm]
  | error e t =>
    rw [bind_of_error hm, handle_of_error hm]
    rfl

end Handle

section Steps

variable {k : Comparison σ} {m : EStateM Fault σ α} {f : α → EStateM Fault σ β}

theorem truncates_pure (a : α) : Truncates k (pure a) where
  results _ _ h := .ok h
  grows s := k.grows_refl s

theorem truncates_throw (e : Fault) : Truncates k (throw e : EStateM Fault σ α) where
  results _ _ h := .error h
  grows s := k.grows_refl s

theorem truncates_modify {g : σ → σ} (hstep : ∀ s s', k.InStep s s' → k.InStep (g s) (g s'))
    (hgrows : ∀ s, k.Grows s (g s)) : Truncates k (modify g : EStateM Fault σ PUnit) where
  results s s' h := .ok (hstep s s' h)
  grows := hgrows

/-- A second part after `m`, whatever became of it. It has to leave a run that is
cut as it is. -/
theorem truncates_handle {g : Fault → EStateM Fault σ β} (hm : Truncates k m)
    (hf : ∀ a, Truncates k (f a)) (hg : ∀ e, Truncates k (g e))
    (hcut : ∀ s s', k.Cut s s' → ∃ t, g .outputClosed s = .error .outputClosed t ∧ k.Cut t s') :
    Truncates k (handle m f g) := by
  have hgrows (s : σ) : k.Grows (outcomeState (m s)) (outcomeState (handle m f g s)) := by
    cases hs : m s with
    | ok a t =>
      rw [handle_of_ok hs]
      exact (hf a).grows t
    | error e t =>
      rw [handle_of_error hs]
      exact (hg e).grows t
  refine ⟨fun s s' h => ?_, fun s => k.grows_trans _ _ _ (hm.grows s) (hgrows s)⟩
  have hfirst := hm.results s s' h
  have hmore := hgrows s'
  cases hs : m s with
  | ok a t =>
    rw [hs] at hfirst
    cases hs' : m s' with
    | ok b t' =>
      rw [hs'] at hfirst
      rw [handle_of_ok hs, handle_of_ok hs']
      cases hfirst with
      | ok ht => exact (hf a).results t t' ht
    | error e t' =>
      rw [hs'] at hfirst
      cases hfirst
  | error e t =>
    rw [hs] at hfirst
    rw [handle_of_error hs]
    by_cases ht : k.Cut t (outcomeState (m s')) ∧ e = .outputClosed
    · obtain ⟨ht, rfl⟩ := ht
      obtain ⟨u, hu, hcutu⟩ := hcut t _ ht
      rw [hu]
      exact .cut (k.cut_of_grows _ _ _ hcutu hmore)
    · cases hs' : m s' with
      | ok b t' =>
        rw [hs'] at hfirst ht
        cases hfirst with
        | cut hcutt => exact absurd ⟨hcutt, rfl⟩ ht
      | error e' t' =>
        rw [hs'] at hfirst ht
        rw [handle_of_error hs']
        cases hfirst with
        | error hstep => exact (hg e).results t t' hstep
        | cut hcutt => exact absurd ⟨hcutt, rfl⟩ ht

theorem truncates_bind (hm : Truncates k m) (hf : ∀ a, Truncates k (f a)) :
    Truncates k (m >>= f) := by
  rw [bind_eq_handle]
  exact truncates_handle hm hf truncates_throw fun s _ h => ⟨s, rfl, h⟩

/-- What is read from states in step has to be the same. -/
theorem truncates_get_bind {f : σ → EStateM Fault σ β} (hf : ∀ s, Truncates k (f s))
    (hsame : ∀ s s', k.InStep s s' → f s = f s') : Truncates k (get >>= f) where
  results s s' h := by
    have hnext := (hf s).results s s' h
    rw [get_bind, get_bind, ← hsame s s' h]
    exact hnext
  grows s := (hf s).grows s

end Steps

namespace Sink

variable {o : Sink} (bytes : List UInt8)

theorem written_write_of_unlimited (h : o.room? = none) :
    (o.write bytes).written = o.written ++ bytes := by
  simp only [write, h]

theorem written_write_of_room {room : Nat} (h : o.room? = some room) :
    (o.write bytes).written = o.written ++ bytes.take room := by
  simp only [write, h]

theorem room?_write_of_room {room : Nat} (h : o.room? = some room) :
    (o.write bytes).room? = some (room - bytes.length) := by
  simp only [write, h]

end Sink

namespace Shell

variable {limit : Nat} {already : Bool} {s s' t u : Shell}

/-- The two shells are the same, but for the limit of the first one's output,
which was not reached yet. That output has refused a write if it `already` had. -/
structure InStep (limit : Nat) (already : Bool) (s s' : Shell) : Prop where
  host : s.host = s'.host
  session : s.session = s'.session
  written : s.out.written = s'.out.written
  unlimited : s'.out.room? = none
  fits : s'.out.written.length ≤ limit
  room : s.out.room? = some (limit - s'.out.written.length)
  refused : s.out.refused = already

/-- The output of the first shell is full, has refused a write, and holds what the
second shell has written up to the limit. The second shell may have recorded more
lines. -/
structure Cut (limit : Nat) (s s' : Shell) : Prop where
  full : s.out.room? = some 0
  written : s.out.written = s'.out.written.take limit
  history : s.session.history <+: s'.session.history
  unlimited : s'.out.room? = none
  exceeds : limit < s'.out.written.length
  refused : s.out.refused = true

/-- Output and history are only added to, no limit comes up, and without a limit no
write is refused. -/
structure Grows (s s' : Shell) : Prop where
  written : s.out.written <+: s'.out.written
  history : s.session.history <+: s'.session.history
  unlimited : s.out.room? = none → s'.out.room? = none
  refused : s.out.room? = none → s'.out.refused = s.out.refused

theorem Grows.refl (s : Shell) : Grows s s :=
  ⟨List.prefix_rfl, List.prefix_rfl, id, fun _ => rfl⟩

theorem Grows.trans (h : Grows s t) (h' : Grows t u) : Grows s u where
  written := h.written.trans h'.written
  history := h.history.trans h'.history
  unlimited hout := h'.unlimited (h.unlimited hout)
  refused hout := (h'.refused (h.unlimited hout)).trans (h.refused hout)

theorem Cut.of_grows (h : Cut limit s t) (hg : Grows t u) : Cut limit s u where
  full := h.full
  written := by
    obtain ⟨more, hmore⟩ := hg.written
    rw [h.written, ← hmore, List.take_append_of_le_length h.exceeds.le]
  history := h.history.trans hg.history
  unlimited := hg.unlimited h.unlimited
  exceeds := h.exceeds.trans_le hg.written.length_le
  refused := h.refused

/-- Runs of commands, on an output with the limit and on one without. -/
def comparison (limit : Nat) (already : Bool) : Comparison Shell where
  InStep := InStep limit already
  Cut := Cut limit
  Grows := Grows
  grows_refl := Grows.refl
  grows_trans _ _ _ := Grows.trans
  cut_of_grows _ _ _ := Cut.of_grows

theorem grows_wrote (s : Shell) (text : String) : Grows s (s.wrote text) where
  written := by
    cases hr : s.out.room? with
    | none => exact ⟨_, (Sink.written_write_of_unlimited _ hr).symm⟩
    | some room => exact ⟨_, (Sink.written_write_of_room _ hr).symm⟩
  history := List.prefix_rfl
  unlimited h := unlimited_write h _
  refused h := by
    refine (Sink.refused_write _ _).trans ?_
    rw [decide_eq_true (fits_of_unlimited h _), Bool.not_true, Bool.or_false]

theorem InStep.wrote {text : String} (h : InStep limit already s s')
    (hfits : s.out.Fits (Text.encode text)) :
    InStep limit already (s.wrote text) (s'.wrote text) := by
  have hlen := hfits _ h.room
  have hwritten := Sink.written_write_of_unlimited (Text.encode text) h.unlimited
  have hlength := congrArg List.length hwritten
  have hbefore := h.fits
  rw [List.length_append] at hlength
  refine ⟨h.host, h.session, ?_, unlimited_write h.unlimited _, ?_, ?_, ?_⟩
  · exact (Sink.written_write_of_fits hfits).trans (hwritten.trans (by rw [h.written])).symm
  · change (s'.out.write (Text.encode text)).written.length ≤ limit
    omega
  · refine (Sink.room?_write_of_room _ h.room).trans (congrArg some ?_)
    change _ = limit - (s'.out.write (Text.encode text)).written.length
    omega
  · refine (Sink.refused_write _ _).trans ?_
    rw [h.refused, decide_eq_true hfits, Bool.not_true, Bool.or_false]

/-- The first write that does not fit cuts the first run. -/
theorem InStep.cut {text : String} (h : InStep limit already s s')
    (hfits : ¬ s.out.Fits (Text.encode text)) : Cut limit (s.wrote text) (s'.wrote text) := by
  have hlen : limit - s'.out.written.length < (Text.encode text).length := by
    by_contra hle
    apply hfits
    intro room hr
    rw [h.room, Option.some.injEq] at hr
    omega
  have hwritten := Sink.written_write_of_unlimited (Text.encode text) h.unlimited
  have hbefore := h.fits
  refine ⟨?_, ?_, ?_, unlimited_write h.unlimited _, ?_, ?_⟩
  · refine (Sink.room?_write_of_room _ h.room).trans (congrArg some ?_)
    omega
  · calc (s.out.write (Text.encode text)).written
        = s'.out.written ++ (Text.encode text).take (limit - s'.out.written.length) := by
          rw [Sink.written_write_of_room _ h.room, h.written]
      _ = (s'.out.written ++ Text.encode text).take limit := by
          rw [List.take_append, List.take_of_length_le hbefore]
      _ = (s'.out.write (Text.encode text)).written.take limit := by rw [hwritten]
  · change s.session.history <+: s'.session.history
    rw [h.session]
  · change limit < (s'.out.write (Text.encode text)).written.length
    rw [hwritten, List.length_append]
    omega
  · refine (Sink.refused_write _ _).trans ?_
    rw [decide_eq_false hfits, Bool.not_false, Bool.or_true]

/-- What is written after the cut is lost. -/
theorem Cut.wrote (h : Cut limit s s') (text : String) : Cut limit (s.wrote text) s' where
  full := (Sink.room?_write_of_room _ h.full).trans (congrArg some (Nat.zero_sub _))
  written := by
    refine Eq.trans ?_ h.written
    exact (Sink.written_write_of_room _ h.full).trans (by rw [List.take_zero, List.append_nil])
  history := h.history
  unlimited := h.unlimited
  exceeds := h.exceeds
  refused := by
    refine (Sink.refused_write _ _).trans ?_
    rw [h.refused, Bool.true_or]

theorem encode_line_ne_nil (text : String) : Text.encode (text ++ "\n") ≠ [] := by
  rw [Text.encode_append, show Text.encode "\n" = [10] by decide]
  simp

theorem Cut.not_fits (h : Cut limit s s') (text : String) :
    ¬ s.out.Fits (Text.encode (text ++ "\n")) := by
  intro hfits
  have hlen := List.eq_nil_of_length_eq_zero (Nat.le_zero.1 (hfits 0 h.full))
  exact encode_line_ne_nil text hlen

theorem truncates_print (text : String) : Truncates (comparison limit already) (print text) where
  results s s' h := by
    have hunlimited : s'.out.Fits (Text.encode text) := fits_of_unlimited h.unlimited _
    rw [print_eq, print_eq, if_pos hunlimited]
    split
    · next hfits => exact .ok (h.wrote hfits)
    · next hfits => exact .cut (h.cut hfits)
  grows s := by
    rw [outcomeState_print]
    exact grows_wrote s text

theorem truncates_printLine (text : String) :
    Truncates (comparison limit already) (printLine text) :=
  truncates_print _

theorem truncates_printLines (texts : List String) :
    Truncates (comparison limit already) (printLines texts) := by
  induction texts with
  | nil => exact truncates_pure _
  | cons text rest ih => exact truncates_bind (truncates_printLine text) fun _ => ih

theorem truncates_note (level : LogLevel) (message : String) :
    Truncates (comparison limit already) (note level message) :=
  truncates_modify
    (fun _ _ h => ⟨by rw [h.host], h.session, h.written, h.unlimited, h.fits, h.room, h.refused⟩)
    fun _ => ⟨List.prefix_rfl, List.prefix_rfl, id, fun _ => rfl⟩

/-- A file operation is done on the same host in both runs. -/
theorem truncates_attempt (operation : Disk α) :
    Truncates (comparison limit already) (attempt operation) where
  results s s' h := by
    rw [attempt_eq, attempt_eq, ← h.host]
    exact .ok ⟨rfl, h.session, h.written, h.unlimited, h.fits, h.room, h.refused⟩
  grows s := by
    rw [attempt_eq]
    exact ⟨List.prefix_rfl, List.prefix_rfl, id, fun _ => rfl⟩

theorem truncates_doing (task : Task) (operation : Disk α) :
    Truncates (comparison limit already) (doing task operation) := by
  refine truncates_bind (truncates_attempt operation) fun outcome => ?_
  split
  · exact truncates_pure _
  · exact truncates_throw _

theorem truncates_resolve (arg : String) : Truncates (comparison limit already) (resolve arg) :=
  truncates_get_bind (fun _ => truncates_pure _) fun _ _ h => by rw [h.session]

theorem truncates_cwd : Truncates (comparison limit already) cwd :=
  truncates_get_bind (fun _ => truncates_pure _) fun _ _ h => by rw [h.session]

theorem truncates_setCwd (dir : Path) : Truncates (comparison limit already) (setCwd dir) :=
  truncates_bind truncates_cwd fun _ => truncates_bind (truncates_note _ _) fun _ =>
    truncates_modify
      (fun _ _ h => ⟨h.host, by rw [h.session], h.written, h.unlimited, h.fits, h.room, h.refused⟩)
      fun _ => ⟨List.prefix_rfl, List.prefix_rfl, id, fun _ => rfl⟩

theorem truncates_recoverCwd : Truncates (comparison limit already) recoverCwd := by
  refine truncates_get_bind (fun s => ?_) fun s s' h => ?_
  · split
    · exact truncates_pure _
    · split
      · exact truncates_pure _
      · exact truncates_setCwd _
  · rw [h.host, h.session]

theorem truncates_record (line : String) : Truncates (comparison limit already) (record line) :=
  truncates_modify
    (fun _ _ h => ⟨h.host, by rw [h.session], h.written, h.unlimited, h.fits, h.room, h.refused⟩)
    fun _ => ⟨List.prefix_rfl, List.prefix_append _ _, id, fun _ => rfl⟩

theorem truncates_requestExit : Truncates (comparison limit already) requestExit :=
  truncates_modify
    (fun _ _ h => ⟨h.host, by rw [h.session], h.written, h.unlimited, h.fits, h.room, h.refused⟩)
    fun _ => ⟨List.prefix_rfl, List.prefix_rfl, id, fun _ => rfl⟩

end Shell

end TreeShell
