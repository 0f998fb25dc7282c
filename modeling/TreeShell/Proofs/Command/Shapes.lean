import TreeShell.Command.Builtin

/-!
# The shapes of arguments

`b.Accepts args` is the grammar of the built-in commands, said by the number of
the arguments and by what stands in them. The readers of the commands agree
with it: a list of arguments is read when it is accepted (`isSome_read?_iff`),
and what is read belongs to the command whose reader it was
(`builtin_of_read?`).
-/

namespace TreeShell.Builtin

/-- A message of several words stands between double quotes. -/
def IsQuoted (words : List String) : Prop :=
  (∃ first, words.head? = some first ∧ first.toList.head? = some '"') ∧
    ∃ last, words.getLast? = some last ∧ last.toList.getLast? = some '"'

/-- The arguments have a shape that the command takes. -/
def Accepts : Builtin → List String → Prop
  | .echo, args => args.length = 1 ∨ 2 ≤ args.length ∧ IsQuoted args
  | .pwd, args | .history, args => args = []
  | .cd, args => args.length ≤ 1
  | .ls, args => args = [] ∨ args = ["-r"]
  | .mkdir, args => 1 ≤ args.length
  | .rmdir, args | .touch, args | .rm, args | .wc, args | .overwrite, args | .append, args =>
    args.length = 1
  | .cp, args => args.length = 2
  | .cat, args => args.length = 1 ∨ args.length = 2
  | .exit, _ => True

theorem joinQuoted_isSome_iff (args : List String) :
    (Text.joinQuoted args).isSome = true ↔ 2 ≤ args.length ∧ IsQuoted args := by
  match args with
  | [] => simp [IsQuoted]
  | [word] => simp
  | first :: second :: rest =>
    have hlast : (first :: second :: rest).getLast? =
        some ((second :: rest).getLast (List.cons_ne_nil _ _)) := by
      rw [List.getLast?_cons_cons, List.getLast?_eq_some_getLast]
    rw [Text.joinQuoted, IsQuoted, hlast]
    split
    · next h =>
      constructor
      · intro _
        exact ⟨by simp, ⟨first, rfl, h.1⟩, _, rfl, h.2⟩
      · intro _
        rfl
    · next h =>
      constructor
      · intro hnone
        cases hnone
      · rintro ⟨-, ⟨_, ⟨rfl⟩, hfirst⟩, _, ⟨rfl⟩, hlast⟩
        exact absurd ⟨hfirst, hlast⟩ h

theorem readNone_isSome_iff (command : Command) (args : List String) :
    (readNone command args).isSome = true ↔ args = [] := by
  cases args <;> simp [readNone]

theorem readOne_isSome_iff (command : String → Command) (args : List String) :
    (readOne command args).isSome = true ↔ args.length = 1 := by
  match args with
  | [] => simp [readOne]
  | [arg] => simp [readOne]
  | arg :: arg' :: rest => simp [readOne]

theorem readEcho_isSome_iff (args : List String) :
    (readEcho args).isSome = true ↔ args.length = 1 ∨ 2 ≤ args.length ∧ IsQuoted args := by
  match args with
  | [] => simp [readEcho]
  | [word] => simp [readEcho]
  | first :: second :: rest =>
    rw [readEcho, Option.isSome_map, joinQuoted_isSome_iff]
    · simp
    · simp

/-- The readers and the grammar agree. -/
theorem isSome_read?_iff (b : Builtin) (args : List String) :
    (b.read? args).isSome = true ↔ b.Accepts args := by
  cases b with
  | echo => exact readEcho_isSome_iff args
  | pwd => exact readNone_isSome_iff _ args
  | history => exact readNone_isSome_iff _ args
  | rmdir => exact readOne_isSome_iff _ args
  | touch => exact readOne_isSome_iff _ args
  | rm => exact readOne_isSome_iff _ args
  | wc => exact readOne_isSome_iff _ args
  | overwrite => exact readOne_isSome_iff _ args
  | append => exact readOne_isSome_iff _ args
  | exit => simp [read?, Accepts]
  | mkdir => cases args <;> simp [read?, readMkdir, Accepts]
  | cd =>
    match args with
    | [] => simp [read?, readCd, Accepts]
    | [arg] => simp [read?, readCd, Accepts]
    | _ :: _ :: rest => simp [read?, readCd, Accepts]
  | ls =>
    match args with
    | [] => simp [read?, readLs, Accepts]
    | [flag] =>
      by_cases h : flag = "-r"
      · simp [read?, readLs, Accepts, h]
      · simp [read?, readLs, Accepts, h]
    | _ :: _ :: rest => simp [read?, readLs, Accepts]
  | cp =>
    match args with
    | [] => simp [read?, readCp, Accepts]
    | [source] => simp [read?, readCp, Accepts]
    | [source, target] => simp [read?, readCp, Accepts]
    | _ :: _ :: _ :: rest => simp [read?, readCp, Accepts]
  | cat =>
    match args with
    | [] => simp [read?, readCat, Accepts]
    | [file] => simp [read?, readCat, Accepts]
    | [file₁, file₂] => simp [read?, readCat, Accepts]
    | _ :: _ :: _ :: rest => simp [read?, readCat, Accepts]

theorem readNone_eq_some {command command' : Command} {args : List String}
    (h : readNone command args = some command') : command' = command := by
  unfold readNone at h
  split at h
  · exact (Option.some.inj h).symm
  · cases h

theorem readOne_eq_some {command : String → Command} {command' : Command} {args : List String}
    (h : readOne command args = some command') :
    ∃ arg, args = [arg] ∧ command' = command arg := by
  unfold readOne at h
  split at h
  · next arg => exact ⟨arg, rfl, (Option.some.inj h).symm⟩
  · cases h

/-- What a command's reader gives is that command. -/
theorem builtin_of_read? {b : Builtin} {args : List String} {command : Command}
    (h : b.read? args = some command) : command.builtin = b := by
  cases b with
  | pwd => rw [readNone_eq_some h]; rfl
  | history => rw [readNone_eq_some h]; rfl
  | rmdir => obtain ⟨arg, -, rfl⟩ := readOne_eq_some h; rfl
  | touch => obtain ⟨arg, -, rfl⟩ := readOne_eq_some h; rfl
  | rm => obtain ⟨arg, -, rfl⟩ := readOne_eq_some h; rfl
  | wc => obtain ⟨arg, -, rfl⟩ := readOne_eq_some h; rfl
  | overwrite => obtain ⟨arg, -, rfl⟩ := readOne_eq_some h; rfl
  | append => obtain ⟨arg, -, rfl⟩ := readOne_eq_some h; rfl
  | exit => cases h; rfl
  | echo =>
    change readEcho args = _ at h
    unfold readEcho at h
    split at h
    · cases h; rfl
    · obtain ⟨message, -, rfl⟩ := Option.map_eq_some_iff.1 h
      rfl
  | cd =>
    change readCd args = _ at h
    unfold readCd at h
    split at h <;> cases h <;> rfl
  | ls =>
    change readLs args = _ at h
    unfold readLs at h
    split at h
    · cases h; rfl
    · split at h <;> cases h
      rfl
    · cases h
  | mkdir =>
    change readMkdir args = _ at h
    unfold readMkdir at h
    split at h <;> cases h
    rfl
  | cp =>
    change readCp args = _ at h
    unfold readCp at h
    split at h <;> cases h
    rfl
  | cat =>
    change readCat args = _ at h
    unfold readCat at h
    split at h <;> cases h <;> rfl

end TreeShell.Builtin
