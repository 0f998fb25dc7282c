import TreeShell.Interpreter.Recipe
import TreeShell.Proofs.Interpreter.Sessions
import TreeShell.Proofs.Interpreter.Truncation

/-!
# The last factory of a name counts

Factories are registered one after the other, and one that finds its name taken replaces
the other with a warning (`warnings_concat`). So a registry finds the last factory of each
name (`find?_ofList_eq_getLast?`), and a line is handed to that one
(`last_registered_counts`). What a session does depends on the registry only through what
is found in it (`repl_congr`), and that is the same for any order of the factories in which
those of one name follow each other as before.
-/

namespace TreeShell

namespace Registry

variable {factories factories' : List Factory} {f : Factory} {name : String}

theorem find?_ofList_eq_getLast? (factories : List Factory) (name : String) :
    find? (ofList factories) name = (factories.filter fun f => f.name = name).getLast? := by
  rw [find?_ofList, ← List.head?_filter, List.filter_reverse, List.head?_reverse]

theorem isSome_find?_ofList :
    (find? (ofList factories) name).isSome = true ↔ name ∈ factories.map Factory.name := by
  rw [find?_ofList, List.find?_isSome, List.mem_map]
  simp only [List.mem_reverse, decide_eq_true_eq]

/-- There is one warning for each factory whose name stands earlier in the list, in the
order of the list. -/
theorem warnings_eq (factories : List Factory) :
    warnings factories = (factories.zipIdx.filter fun x =>
      x.1.name ∈ (factories.take x.2).map Factory.name).map fun x => replaced x.1.name := by
  induction factories using List.reverseRecOn with
  | nil => rfl
  | append_singleton factories f ih =>
    have hearlier : (factories.zipIdx.filter fun x =>
        x.1.name ∈ ((factories ++ [f]).take x.2).map Factory.name) =
          factories.zipIdx.filter fun x => x.1.name ∈ (factories.take x.2).map Factory.name := by
      refine List.filter_congr fun x hx => ?_
      rw [List.take_append_of_le_length (List.snd_lt_of_mem_zipIdx hx).le]
    rw [warnings_concat, List.zipIdx_append, List.filter_append, List.map_append, hearlier, ← ih]
    simp only [isSome_find?_ofList, Nat.zero_add, List.zipIdx_singleton, List.filter_cons,
      List.take_left', List.filter_nil, decide_eq_true_eq]
    split <;> rfl

theorem find?_congr (h : ∀ name, (factories.filter fun f => f.name = name) =
    factories'.filter fun f => f.name = name) :
    find? (ofList factories) = find? (ofList factories') := by
  funext name
  rw [find?_ofList_eq_getLast?, h, find?_ofList_eq_getLast?]

end Registry

namespace Console

variable {r r' : Registry}

theorem runLine_congr (h : r.find? = r'.find?) (line : String) :
    runLine r line = runLine r' line := by
  have hdispatch (line : CommandLine) : dispatch r line = dispatch r' line := by
    rw [dispatch, h, dispatch]
  simp only [runLine, hdispatch]

/-- Registries in which the same is found serve alike. -/
theorem repl_congr (h : r.find? = r'.find?) (c : Console) : repl r c = repl r' c := by
  have hrounds (n : Nat) : rounds r n = rounds r' n := by
    induction n with
    | zero => rfl
    | succ n ih => simp only [rounds, ih, runLine_congr h]
  have hlt : c.source.replies.length < c.source.replies.length + 1 := Nat.lt_succ_self _
  rw [repl_eq_rounds hlt, repl_eq_rounds hlt, hrounds]

/-- A line is handed to the last factory of its first word, with the other words as the
arguments, and is answered if there is none. There is one warning for each factory whose
name stands earlier in the list. Factories of different names can change places: nothing
that a session does depends on it. -/
theorem last_registered_counts (factories : List Factory) :
    (∀ (line name : String) (args : List String) (c : Console),
      Text.words line = name :: args →
        (∀ f, (factories.filter fun g => g.name = name).getLast? = some f →
          runLine (.ofList factories) line c =
            (f.create args).run (c.started line name args)) ∧
        ((∀ f ∈ factories, f.name ≠ name) →
          OnlyAnswers line ("Unknown command: " ++ name) c
            (runLine (.ofList factories) line c))) ∧
    (Registry.warnings factories = (factories.zipIdx.filter fun x =>
      x.1.name ∈ (factories.take x.2).map Factory.name).map fun x =>
        ⟨.warn, "command " ++ x.1.name ++ " registered twice, keeping the last one"⟩) ∧
    ∀ factories' : List Factory, (∀ name, (factories.filter fun f => f.name = name) =
      factories'.filter fun f => f.name = name) → ∀ c : Console,
        repl (.ofList factories) c = repl (.ofList factories') c ∧
        ∀ line, runLine (.ofList factories) line c = runLine (.ofList factories') line c := by
  refine ⟨fun line name args c hwords => ⟨fun f hlast => ?_, fun hnone => ?_⟩,
    Registry.warnings_eq factories, fun factories' hsame c => ?_⟩
  · rw [← Registry.find?_ofList_eq_getLast?] at hlast
    exact runLine_of_find? hwords hlast c
  · refine onlyAnswers_of_find?_eq_none hwords ?_ c
    rw [Registry.find?_ofList_eq_getLast?, List.getLast?_eq_none_iff, List.filter_eq_nil_iff]
    simpa using hnone
  · have hfind := Registry.find?_congr hsame
    exact ⟨repl_congr hfind c, fun line => by rw [runLine_congr hfind]⟩

/-- A command whose name will be registered again. -/
def elder : Recipe := { name := "a", reply := "1" }

/-- The command that is registered under that name later. -/
def younger : Recipe := { name := "a", reply := "2" }

/-- A command of another name. -/
def other : Recipe := { name := "b" }

theorem last_registered_counts_twice :
    runLine (.ofList [elder.factory, other.factory, younger.factory]) " a x\ty" (onTree [] "/") =
        (younger.action ["x", "y"]).run ((onTree [] "/").started " a x\ty" "a" ["x", "y"]) ∧
      OnlyAnswers "c" "Unknown command: c" (onTree [] "/")
        (runLine (.ofList [elder.factory, other.factory, younger.factory]) "c" (onTree [] "/")) ∧
      Registry.warnings [elder.factory, other.factory, younger.factory] =
        [⟨.warn, "command a registered twice, keeping the last one"⟩] ∧
      repl (.ofList [elder.factory, other.factory, younger.factory])
          ⟨(onTree [] "/").shell, { replies := [.line "a", .line "b"] }⟩ =
        repl (.ofList [other.factory, elder.factory, younger.factory])
          ⟨(onTree [] "/").shell, { replies := [.line "a", .line "b"] }⟩ := by
  obtain ⟨hline, hwarnings, hreordered⟩ :=
    last_registered_counts [elder.factory, other.factory, younger.factory]
  refine ⟨(hline _ "a" ["x", "y"] _ (by decide)).1 younger.factory rfl,
    (hline _ "c" [] _ (by decide)).2 ?_, hwarnings, (hreordered _ (fun name => ?_) _).1⟩
  · simp [Recipe.factory, elder, other, younger]
  · by_cases ha : "a" = name
    · subst ha
      rfl
    · by_cases hb : "b" = name
      · subst hb
        rfl
      · simp [Recipe.factory, elder, other, younger, ha, hb]

end Console

end TreeShell
