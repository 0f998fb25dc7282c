import TreeShell.Proofs.Tree.Changes
import TreeShell.Proofs.Tree.Passages

/-!
# Writing a file and finding it again

A call that writes a file succeeds exactly when its path leads, links followed, to
an address with a file or with nothing, and then the file at this address is all
that has changed (`exists_written_of_modifyFile`, `modifyFile_of_locate`).

What leads to an address leads there in every tree that has grown, since all the
entries on the way are still there and no link is new (`locate_of_extends`). So the
path that was written leads to the written file (`Written.find_of_locate_output`).
-/

namespace TreeShell.Tree

variable {t u v : Tree} {a b : Address} {ps : List Piece} {p : Path} {ending ending' : Ending}

section Growth

variable {jump jump' : Address → List Piece → Except IoError Address}

/-- A walk goes the same way when the tree has grown. Whether a link in the last
place is followed makes no difference to a walk that ends where nothing is. -/
theorem walk_of_extends (h : t.Extends u)
    (hfollows : ending'.followsLink = ending.followsLink ∨
      ending'.followsLink = true ∧ t.entry? b = none)
    (hrefuses : ending'.refusesSlash = true → ending.refusesSlash = true)
    (hjump : ∀ a ps, jump a ps = .ok b → jump' a ps = .ok b)
    (hw : t.walk ending jump a ps = .ok b) : u.walk ending' jump' a ps = .ok b := by
  induction ps generalizing a with
  | nil => exact hw
  | cons p ps ih =>
    obtain ⟨ha, hslash, hgets⟩ := walk_cons_eq_ok_iff.1 hw
    refine walk_cons_eq_ok_iff.2
      ⟨h.kinds.keepsDirs a ha, fun hs => hslash ⟨hrefuses hs.1, hs.2⟩, ?_⟩
    cases hgets with
    | passes c e hstep he hkind hrest =>
      obtain ⟨f, hf, hk⟩ := h.kinds _ _ he
      exact .passes c f hstep hf (by rwa [hk]) (ih hrest)
    | ends n hp hn hps hb =>
      -- whatever is there by now, it is no link
      cases hun : u.entry? (n :: a) with
      | none => exact .ends n hp hun hps hb
      | some e =>
        refine .passes (n :: a) e (by rw [hp]; rfl) hun (fun hk => ?_) (by rw [hps, hb, walk_nil])
        obtain ⟨target, rfl⟩ := Entry.kind_eq_link_iff.1 hk
        rw [h.links _ _ hun] at hn
        cases hn
    | stops n target hp hn hps hstop hb =>
      rcases hfollows with heq | ⟨-, hnone⟩
      · exact .stops n target hp (h.entry?_link hn) hps (heq.trans hstop) hb
      · -- the walk ends at the link, where there is something
        rw [hb, hn] at hnone
        cases hnone
    | jumps n target hp hn hlast hjumped =>
      refine .jumps n target hp (h.entry?_link hn) (fun hps => ?_) (hjump _ _ hjumped)
      rcases hfollows with heq | ⟨htrue, -⟩
      · exact heq.trans (hlast hps)
      · exact htrue

theorem follow_of_extends {links : Nat} (h : t.Extends u)
    (hfollows : ending'.followsLink = ending.followsLink ∨
      ending'.followsLink = true ∧ t.entry? b = none)
    (hrefuses : ending'.refusesSlash = true → ending.refusesSlash = true)
    (hf : t.follow ending links a ps = .ok b) : u.follow ending' links a ps = .ok b := by
  induction links generalizing a ps with
  | zero =>
    apply walk_of_extends h hfollows hrefuses _ hf
    intro a ps hjump
    cases hjump
  | succ links ih =>
    apply walk_of_extends h hfollows hrefuses _ hf
    intro a ps hjump
    exact ih hjump

/-- A path leads where it led before the tree grew. -/
theorem locate_of_extends (h : t.Extends u) (hl : t.locate ending p = .ok a) :
    u.locate ending p = .ok a := by
  have hr := refusal?_of_locate hl
  rw [locate, hr] at hl ⊢
  exact follow_of_extends h (Or.inl rfl) id hl

/-- What an ending admits, a more lenient one admits, too. -/
theorem locate_of_ending (hl : t.locate ending p = .ok a)
    (hpieces : ending ≠ .name ∧ ending' ≠ .name)
    (hfollows : ending'.followsLink = ending.followsLink ∨
      ending'.followsLink = true ∧ t.entry? a = none)
    (hrefuses : ending'.refusesSlash = true → ending.refusesSlash = true) :
    t.locate ending' p = .ok a := by
  have hr := refusal?_of_locate hl
  rw [locate, hr, if_neg hpieces.1] at hl
  rw [locate, hr, if_neg hpieces.2]
  exact follow_of_extends (refl_of Extends t) hfollows hrefuses hl

/-- A path that can be written to leads there when it is read. -/
theorem locate_target_of_output (hl : t.locate .output p = .ok a) :
    t.locate .target p = .ok a :=
  locate_of_ending hl (by decide) (Or.inl rfl) fun h => by cases h

/-- The place for something new is the place of the name, not of what a link stands
for. -/
theorem locate_entry_of_fresh (hl : t.locate .fresh p = .ok a) : t.locate .entry p = .ok a :=
  locate_of_ending hl (by decide) (Or.inl rfl) fun h => by cases h

/-- Where nothing is, no link leads on. -/
theorem locate_target_of_fresh (hl : t.locate .fresh p = .ok a) (hn : t.entry? a = none) :
    t.locate .target p = .ok a :=
  locate_of_ending hl (by decide) (Or.inr ⟨rfl, hn⟩) fun h => by cases h

end Growth

section Parent

variable {jump : Address → List Piece → Except IoError Address}

/-- What a walk ends at lies in a directory. -/
theorem hasDir_tail_of_walk
    (hjump : ∀ a ps b, t.HasDir a → jump a ps = .ok b → t.HasDir b.tail)
    (ha : t.HasDir a.tail) (hw : t.walk ending jump a ps = .ok b) : t.HasDir b.tail := by
  induction ps generalizing a with
  | nil =>
    cases hw
    exact ha
  | cons p ps ih =>
    obtain ⟨hdir, -, hgets⟩ := walk_cons_eq_ok_iff.1 hw
    cases hgets with
    | passes c e hstep he hkind hrest => exact ih (hasDir_tail_of_step hdir hstep) hrest
    | ends n hp hn hps hb =>
      rw [hb]
      exact hdir
    | stops n target hp hn hps hstop hb =>
      rw [hb]
      exact hdir
    | jumps n target hp hn hlast hjumped => exact hjump _ _ _ (hasDir_target hdir target) hjumped

theorem hasDir_tail_of_follow {links : Nat} (ha : t.HasDir a)
    (hf : t.follow ending links a ps = .ok b) : t.HasDir b.tail := by
  induction links generalizing a ps b with
  | zero =>
    apply hasDir_tail_of_walk _ (t.hasDir_tail ha) hf
    intro a ps b _ hjump
    cases hjump
  | succ links ih =>
    apply hasDir_tail_of_walk _ (t.hasDir_tail ha) hf
    intro a ps b hdir hjump
    exact ih hdir hjump

/-- The directory that an address would lie in exists, if a path leads there. -/
theorem hasDir_of_locate {n : FileName} (hl : t.locate ending p = .ok (n :: a)) : t.HasDir a := by
  have hr := refusal?_of_locate hl
  rw [locate, hr] at hl
  exact hasDir_tail_of_follow t.hasDir_nil hl

end Parent

section Written

/-- At the address there is a file or nothing. -/
def Free (t : Tree) (a : Address) : Prop :=
  ∀ e, t.entry? a = some e → e.kind = .file

/-- The bytes of the file at the address, none if there is no file. -/
def bytesAt (t : Tree) (a : Address) : List UInt8 :=
  match t.entry? a with
  | some (.file bytes) => bytes
  | _ => []

/-- Where `t` had a file or nothing, `u` has a file with the bytes. All the other
entries are the same. -/
structure Written (t : Tree) (a : Address) (bytes : List UInt8) (u : Tree) : Prop where
  free : t.Free a
  entry : ∀ c, u.entry? c = if c = a then some (.file bytes) else t.entry? c

variable {bytes bytes' : List UInt8} {f : List UInt8 → List UInt8}

theorem Written.self (h : t.Written a bytes u) : u.entry? a = some (.file bytes) := by
  rw [h.entry, if_pos rfl]

theorem Written.entry_of_ne (h : t.Written a bytes u) (hb : b ≠ a) :
    u.entry? b = t.entry? b := by
  rw [h.entry, if_neg hb]

theorem Written.bytesAt_eq (h : t.Written a bytes u) : u.bytesAt a = bytes := by
  rw [bytesAt, h.self]

theorem Written.extends (h : t.Written a bytes u) : t.Extends u := by
  constructor
  · intro c e he
    by_cases hc : c = a
    · subst hc
      exact ⟨.file bytes, h.self, (h.free e he).symm⟩
    · exact ⟨e, (h.entry_of_ne hc).trans he, rfl⟩
  · intro c target hc
    rw [h.entry] at hc
    split at hc
    · cases hc
    · exact hc

/-- The path that was written leads to the file that was written. -/
theorem Written.find_of_locate_output (h : t.Written a bytes u)
    (hl : t.locate .output p = .ok a) : u.find p = .ok (a, .file bytes) :=
  find_of_locate (locate_of_extends h.extends (locate_target_of_output hl)) h.self

theorem free_of_eq_none (h : t.entry? a = none) : t.Free a := by
  intro e he
  rw [h] at he
  cases he

theorem free_of_file (h : t.entry? a = some (.file bytes)) : t.Free a := by
  intro e he
  rw [h] at he
  cases he
  rfl

/-- What is at a free address, if anything, is the file with its bytes. -/
theorem Free.entry?_eq (h : t.Free a) (ha : t.entry? a ≠ none) :
    t.entry? a = some (.file (t.bytesAt a)) := by
  rw [bytesAt]
  cases he : t.entry? a with
  | none => exact absurd he ha
  | some e =>
    have hk := h e he
    cases e with
    | file bytes => rfl
    | dir => cases hk
    | link target => cases hk

/-- A call that writes has written the file that its path leads to. -/
theorem exists_written_of_modifyFile (h : t.modifyFile p f = .ok u) :
    ∃ a, t.locate .output p = .ok a ∧ t.Written a (f (t.bytesAt a)) u := by
  rcases modifyFile_eq_ok h with ⟨n, a, hl, hn, rfl⟩ | ⟨a, old, hl, hold, rfl⟩
  · refine ⟨n :: a, hl, free_of_eq_none hn, fun c => ?_⟩
    rw [t.entry?_insert (hasDir_of_locate hl) hn, bytesAt, hn]
  · refine ⟨a, hl, free_of_file hold, fun c => ?_⟩
    rw [t.entry?_setBytes, bytesAt, hold]
    split
    · next hc =>
      rw [hc, hold]
      rfl
    · rfl

theorem exists_written_of_createNew (h : t.createNew p = .ok u) :
    ∃ a, t.locate .fresh p = .ok a ∧ t.entry? a = none ∧ t.Written a [] u := by
  obtain ⟨n, a, hl, hn, rfl⟩ := createNew_eq_ok h
  refine ⟨n :: a, hl, hn, free_of_eq_none hn, fun c => ?_⟩
  rw [t.entry?_insert (hasDir_of_locate hl) hn]

/-- A file, or one that is missing, can be written. -/
theorem modifyFile_of_locate (hl : t.locate .output p = .ok a) (hfree : t.Free a)
    (f : List UInt8 → List UInt8) :
    ∃ u, t.modifyFile p f = .ok u ∧ t.Written a (f (t.bytesAt a)) u := by
  have hok : ∃ u, t.modifyFile p f = .ok u := by
    rw [modifyFile, hl]
    cases he : t.entry? a with
    | none =>
      cases a with
      | nil => cases he
      | cons n a =>
        refine ⟨t.insert n a (.file (f [])), ?_⟩
        simp only [bind, Except.bind, he, place, Option.isSome_none, Bool.false_eq_true, if_false]
    | some e =>
      cases e with
      | file old => exact ⟨t.setBytes a (f old), by simp only [bind, Except.bind, he]⟩
      | dir => cases hfree _ he
      | link target => cases hfree _ he
  obtain ⟨u, hu⟩ := hok
  obtain ⟨b, hb, hwritten⟩ := exists_written_of_modifyFile hu
  rw [hl] at hb
  cases hb
  exact ⟨u, hu, hwritten⟩

end Written

end TreeShell.Tree
