import TreeShell.Proofs.Shell.Frame

/-!
# What a command comes to

An `Upshot` is what a command comes to apart from what it was called with: the tree
that it leaves, what it prints, where an argument that is shown as it was typed is only
marked (`Fragment.arg`), and the fault it ends with, if any. `ComesTo` says that a run
has this upshot: it leaves the tree, its output was written what the upshot shows with
the arguments of the run, and it ends as the upshot does, unless the output did not take
all of it.

Writing twice is writing once (`Sink.write_append`), so the upshots of the parts of a
command are put one after the other (`comesTo_print_bind`).
-/

namespace TreeShell

namespace Sink

variable {k : Sink} {bytes more : List UInt8}

theorem write_append (k : Sink) (bytes more : List UInt8) :
    k.write (bytes ++ more) = (k.write bytes).write more := by
  cases hroom : k.room? with
  | none => simp [write, hroom, List.append_assoc]
  | some room =>
    have hrefused : decide (room < bytes.length + more.length) =
        (decide (room < bytes.length) || decide (room - bytes.length < more.length)) := by
      rw [Bool.eq_iff_iff]
      simp only [decide_eq_true_eq, Bool.or_eq_true]
      omega
    simp [write, hroom, List.take_append, List.append_assoc, Nat.sub_sub, hrefused,
      Bool.or_assoc]

theorem fits_append (k : Sink) (bytes more : List UInt8) :
    k.Fits (bytes ++ more) ↔ k.Fits bytes ∧ (k.write bytes).Fits more := by
  cases hroom : k.room? with
  | none => simp [Fits, write, hroom]
  | some room =>
    simp only [Fits, write, hroom, Option.some.injEq, forall_eq', List.length_append]
    omega

theorem write_append_of_not_fits (h : ¬ k.Fits bytes) (more : List UInt8) :
    k.write (bytes ++ more) = k.write bytes := by
  rw [write_append, write_write_of_not_fits h]

theorem not_fits_write (h : ¬ k.Fits bytes) (hmore : more ≠ []) :
    ¬ (k.write bytes).Fits more := by
  cases hroom : k.room? with
  | none => exact absurd (by simp [Fits, hroom]) h
  | some room =>
    have hlen : room < bytes.length := by
      simpa [Fits, hroom] using h
    have hpos := List.length_pos_iff.2 hmore
    simp only [Fits, write, hroom, Option.some.injEq, forall_eq']
    omega

theorem fits_of_room {k' : Sink} (h : k'.room? = k.room?) : k'.Fits bytes ↔ k.Fits bytes := by
  rw [Fits, Fits, h]

theorem room_write_of_room {k' : Sink} (h : k'.room? = k.room?) (bytes : List UInt8) :
    (k'.write bytes).room? = (k.write bytes).room? := by
  rw [write, write, h]
  split <;> rfl

end Sink

/-- A piece of what a command prints: a text, or one of its arguments as it was typed. -/
inductive Fragment where
  | words (text : String)
  | arg (index : Nat)

/-- The fragment with the arguments filled in. -/
def Fragment.shown (args : List String) : Fragment → String
  | .words text => text
  | .arg index => args.getD index ""

/-- The fragments with the arguments filled in, one after the other. -/
def shown (args : List String) : List Fragment → String
  | [] => ""
  | fragment :: rest => fragment.shown args ++ shown args rest

/-- The tree that a command leaves, what it prints, and the fault it ends with. -/
structure Upshot where
  tree : Tree
  text : List Fragment
  fault? : Option Fault

namespace Upshot

/-- The bytes of what is printed. -/
def bytes (u : Upshot) (args : List String) : List UInt8 :=
  Text.encode (TreeShell.shown args u.text)

/-- The end of a command in a state. -/
def endIn {σ : Type} (u : Upshot) (s : σ) : EStateM.Result Fault σ Unit :=
  match u.fault? with
  | none => .ok () s
  | some e => .error e s

/-- The upshot after something else was printed. -/
def after (u : Upshot) (fragments : List Fragment) : Upshot :=
  { u with text := fragments ++ u.text }

/-- The upshot with its fault printed. -/
def reported (u : Upshot) : Upshot :=
  { u with
    text := u.text ++ (u.fault?.map fun e => Fragment.words (e.text ++ "\n")).toList
    fault? := none }

end Upshot

/-- The run of a command with the arguments, on the output `k`, has the upshot `u`. -/
structure ComesTo {σ : Type} (shell : σ → Shell) (args : List String) (k : Sink) (u : Upshot)
    (r : EStateM.Result Fault σ Unit) : Prop where
  tree : (shell (outcomeState r)).host.tree = u.tree
  out : (shell (outcomeState r)).out = k.write (u.bytes args)
  outcome : r = if k.Fits (u.bytes args) then u.endIn (outcomeState r)
    else .error .outputClosed (outcomeState r)

section Shown

variable {args : List String}

@[simp] theorem shown_words (args : List String) (text : String) :
    shown args [.words text] = text := by
  simp [shown, Fragment.shown]

theorem shown_append (args : List String) (fragments rest : List Fragment) :
    shown args (fragments ++ rest) = shown args fragments ++ shown args rest := by
  induction fragments with
  | nil => simp [shown]
  | cons fragment fragments ih => simp [shown, ih, String.append_assoc]

/-- Without a mark for an argument the arguments do not matter. -/
theorem shown_congr {fragments : List Fragment} (h : ∀ i, .arg i ∉ fragments)
    (args args' : List String) : shown args fragments = shown args' fragments := by
  induction fragments with
  | nil => rfl
  | cons fragment rest ih =>
    have hrest : shown args rest = shown args' rest :=
      ih fun i hi => h i (List.mem_cons_of_mem _ hi)
    cases fragment with
    | words text => rw [shown, shown, hrest, Fragment.shown, Fragment.shown]
    | arg index => exact absurd List.mem_cons_self (h index)

/-- What shows no argument is the same whatever was typed, its fault included. -/
theorem Upshot.bytes_congr {u : Upshot} (h : ∀ i, .arg i ∉ u.text) (args args' : List String) :
    u.bytes args = u.bytes args' ∧ u.reported.bytes args = u.reported.bytes args' := by
  have hreported (i : Nat) : .arg i ∉ u.reported.text := by
    simp [reported, h i]
  rw [bytes, bytes, shown_congr h args args', bytes, bytes, shown_congr hreported args args']
  exact ⟨rfl, rfl⟩

theorem Upshot.bytes_after (u : Upshot) (fragments : List Fragment) :
    (u.after fragments).bytes args = Text.encode (shown args fragments) ++ u.bytes args := by
  rw [bytes, after, shown_append, Text.encode_append]
  rfl

theorem Upshot.reported_after (u : Upshot) (fragments : List Fragment) :
    (u.after fragments).reported = u.reported.after fragments := by
  simp only [reported, after, List.append_assoc]

end Shown

section Runs

variable {σ : Type} {shell : σ → Shell} {args : List String} {k : Sink} {u : Upshot}
  {r : EStateM.Result Fault σ Unit} {s s' : σ} {fragments : List Fragment}

theorem comesTo_endIn (htree : (shell s).host.tree = u.tree)
    (hout : (shell s).out = k.write (u.bytes args)) (hfits : k.Fits (u.bytes args)) :
    ComesTo shell args k u (u.endIn s) := by
  have hstate : outcomeState (u.endIn s) = s := by
    rw [Upshot.endIn]
    split <;> rfl
  refine ⟨?_, ?_, ?_⟩
  · rw [hstate, htree]
  · rw [hstate, hout]
  · rw [if_pos hfits, hstate]

/-- An output that has refused a write has taken what it takes of the whole. -/
theorem comesTo_of_not_fits (htree : (shell s).host.tree = u.tree)
    (hfits : ¬ k.Fits (Text.encode (shown args fragments)))
    (hout : (shell s).out = k.write (Text.encode (shown args fragments))) :
    ComesTo shell args k (u.after fragments) (.error .outputClosed s) := by
  have hnot : ¬ k.Fits ((u.after fragments).bytes args) := by
    rw [Upshot.bytes_after, Sink.fits_append]
    exact fun h => hfits h.1
  refine ⟨htree, ?_, ?_⟩
  · rw [Upshot.bytes_after, Sink.write_append_of_not_fits hfits]
    exact hout
  · rw [if_neg hnot]
    rfl

/-- What comes after something that fitted. -/
theorem ComesTo.after (hfits : k.Fits (Text.encode (shown args fragments)))
    (h : ComesTo shell args (k.write (Text.encode (shown args fragments))) u r) :
    ComesTo shell args k (u.after fragments) r := by
  refine ⟨h.tree, ?_, ?_⟩
  · rw [h.out, Upshot.bytes_after, Sink.write_append]
  · have hiff : k.Fits ((u.after fragments).bytes args) ↔
        (k.write (Text.encode (shown args fragments))).Fits (u.bytes args) := by
      rw [Upshot.bytes_after, Sink.fits_append, and_iff_right hfits]
    rw [if_congr hiff rfl rfl]
    exact h.outcome

/-- What comes after something that did not fit is not taken any more. -/
theorem ComesTo.after_of_not_fits (hfits : ¬ k.Fits (Text.encode (shown args fragments)))
    (hbytes : u.bytes args ≠ [])
    (h : ComesTo shell args (k.write (Text.encode (shown args fragments))) u r) :
    ComesTo shell args k (u.after fragments) r := by
  have houtcome := h.outcome
  rw [if_neg (Sink.not_fits_write hfits hbytes)] at houtcome
  rw [houtcome]
  refine comesTo_of_not_fits h.tree hfits ?_
  rw [h.out, Sink.write_write_of_not_fits hfits]

end Runs

namespace Shell

variable {args : List String} {s : Shell} {u : Upshot} {fragments : List Fragment}
  {text : String}

theorem comesTo_error (e : Fault) (s : Shell) :
    ComesTo id args s.out ⟨s.host.tree, [], some e⟩ (.error e s) :=
  comesTo_endIn (u := ⟨s.host.tree, [], some e⟩) rfl (Sink.write_nil s.out).symm
    (Sink.fits_nil s.out)

theorem comesTo_ok (s : Shell) : ComesTo id args s.out ⟨s.host.tree, [], none⟩ (.ok () s) :=
  comesTo_endIn (u := ⟨s.host.tree, [], none⟩) rfl (Sink.write_nil s.out).symm
    (Sink.fits_nil s.out)

/-- A text is printed before the rest, which leaves the tree as it is. -/
theorem comesTo_print_bind {next : ShellM Unit} (htext : shown args fragments = text)
    (htree : s.host.tree = u.tree)
    (hnext : ComesTo id args (s.wrote text).out u (next (s.wrote text))) :
    ComesTo id args s.out (u.after fragments) ((print text >>= fun _ => next) s) := by
  subst htext
  have hprint := print_eq (shown args fragments) s
  by_cases hfits : s.out.Fits (Text.encode (shown args fragments))
  · rw [if_pos hfits] at hprint
    rw [bind_of_ok hprint]
    exact hnext.after hfits
  · rw [if_neg hfits] at hprint
    rw [bind_of_error hprint]
    exact comesTo_of_not_fits htree hfits rfl

theorem comesTo_print (htext : shown args fragments = text) (s : Shell) :
    ComesTo id args s.out ⟨s.host.tree, fragments, none⟩ (print text s) := by
  have hbind : print text s = (print text >>= fun _ => pure ()) s := by
    cases h : print text s with
    | ok _ s' =>
      rw [bind_of_ok h]
      rfl
    | error e s' => rw [bind_of_error h]
  have hdone : ComesTo id args s.out (Upshot.after ⟨s.host.tree, [], none⟩ fragments)
      ((print text >>= fun _ => pure ()) s) :=
    comesTo_print_bind htext rfl (comesTo_ok (s.wrote text))
  rw [← hbind, Upshot.after, List.append_nil] at hdone
  exact hdone

end Shell

end TreeShell
