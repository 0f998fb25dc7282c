import TreeShell.Proofs.Path.Ancestors
import TreeShell.Proofs.Tree.Entries

/-!
# Trails along directories

`t.Trail a ps b` says that the pieces `ps` lead from `a` to `b` and that there
is a directory at every address on the way, both ends included. A trail is
followed whatever the ending and whatever links lie elsewhere
(`walk_append_of_trail`). In a tree without links nothing else leads to a
directory (`trail_of_walk`), so there a path leads to a directory when there is
a trail along its pieces (`isDir_iff`).

A walk that leads somewhere gets on from piece to piece in one of four ways
(`walk_cons_eq_ok_iff`), and what is said about walks is said by induction on the
pieces, way by way.

A trail only asks for directories, so it lasts as long as they do. When entries
are removed it lasts or breaks at a name that is gone
(`Trail.lasts_or_breaks`).
-/

namespace TreeShell

/-- Where a step leads from an address, if the system takes it. -/
def Step.from? (a : Address) : Step → Option Address
  | .stay => some a
  | .up => some a.tail
  | .enter n => some (n :: a)
  | .refuse _ => none

/-- The ending does not refuse the pieces for a slash at their end. -/
def Ending.Suits (ending : Ending) (ps : List Piece) : Prop :=
  ending.refusesSlash = true → ∀ s, ps.getLast? = some s → s.text ≠ ""

/-- The ending refuses the slash after the piece, which is the last name. -/
def Ending.Refuses (ending : Ending) (p : Piece) (rest : List Piece) : Prop :=
  ending.refusesSlash ∧ areSlashes rest ∧ !p.isIdle ∧ p.text ≠ ".."

theorem Ending.Suits.tail {ending : Ending} {p : Piece} {ps : List Piece}
    (h : ending.Suits (p :: ps)) : ending.Suits ps := by
  intro hr s hs
  cases ps with
  | nil => cases hs
  | cons q ps => exact h hr s (by rw [List.getLast?_cons_cons]; exact hs)

theorem Ending.suits_of_not_refusesSlash {ending : Ending} (h : ending.refusesSlash = false)
    (ps : List Piece) : ending.Suits ps := by
  intro hr
  rw [h] at hr
  cases hr

theorem Ending.Suits.areSlashes_eq_false {ending : Ending} {p : Piece} {ps : List Piece}
    (h : ending.Suits (p :: ps)) (hr : ending.refusesSlash = true) : areSlashes ps = false := by
  by_cases hps : ps = []
  · simp [areSlashes, hps]
  · have hlast := h.tail hr (ps.getLast hps) (List.getLast?_eq_some_getLast hps)
    simp only [areSlashes, Bool.and_eq_false_iff, List.all_eq_false]
    exact Or.inr ⟨_, List.getLast_mem hps, by simpa using hlast⟩

theorem Ending.Suits.not_refuses {ending : Ending} {p : Piece} {ps : List Piece}
    (h : ending.Suits (p :: ps)) : ¬ ending.Refuses p ps := by
  rintro ⟨hr, hslashes, -⟩
  rw [h.areSlashes_eq_false hr] at hslashes
  cases hslashes

namespace Tree

/-- The pieces lead from `a` to `b` along directories only. -/
def Trail (t : Tree) : Address → List Piece → Address → Prop
  | a, [], b => t.HasDir a ∧ a = b
  | a, p :: rest, b => t.HasDir a ∧ ∃ c, (Step.ofPiece p).from? a = some c ∧ t.Trail c rest b

variable {t : Tree} {a b : Address} {ps qs : List Piece}

theorem trail_nil : t.Trail a [] b ↔ t.HasDir a ∧ a = b := Iff.rfl

theorem trail_cons {p : Piece} :
    t.Trail a (p :: ps) b ↔ t.HasDir a ∧ ∃ c, (Step.ofPiece p).from? a = some c ∧ t.Trail c ps b :=
  Iff.rfl

theorem Trail.hasDir_start (h : t.Trail a ps b) : t.HasDir a := by
  cases ps <;> exact h.1

theorem Trail.hasDir_end (h : t.Trail a ps b) : t.HasDir b := by
  induction ps generalizing a with
  | nil =>
    obtain ⟨ha, rfl⟩ := h
    exact ha
  | cons p ps ih =>
    obtain ⟨-, c, -, h⟩ := h
    exact ih h

theorem trail_append : t.Trail a (ps ++ qs) b ↔ ∃ c, t.Trail a ps c ∧ t.Trail c qs b := by
  induction ps generalizing a with
  | nil =>
    constructor
    · intro h
      exact ⟨a, ⟨h.hasDir_start, rfl⟩, h⟩
    · rintro ⟨c, ⟨-, rfl⟩, h⟩
      exact h
  | cons p ps ih =>
    simp only [List.cons_append, trail_cons, ih]
    constructor
    · rintro ⟨ha, c, hc, d, hd, h⟩
      exact ⟨d, ⟨ha, c, hc, hd⟩, h⟩
    · rintro ⟨d, ⟨ha, c, hc, hd⟩, h⟩
      exact ⟨ha, c, hc, d, hd, h⟩

theorem trail_cons_idle {p : Piece} (hp : p.isIdle = true) :
    t.Trail a (p :: ps) b ↔ t.Trail a ps b := by
  rw [trail_cons, Step.ofPiece_of_isIdle hp]
  constructor
  · rintro ⟨-, c, ⟨rfl⟩, h⟩
    exact h
  · intro h
    exact ⟨h.hasDir_start, a, rfl, h⟩

theorem trail_idle (h : ∀ p ∈ ps, p.isIdle = true) : t.Trail a ps b ↔ t.HasDir a ∧ a = b := by
  induction ps with
  | nil => exact Iff.rfl
  | cons p ps ih =>
    rw [trail_cons_idle (h p List.mem_cons_self)]
    exact ih fun q hq => h q (List.mem_cons_of_mem _ hq)

theorem trail_idle_append (h : ∀ p ∈ ps, p.isIdle = true) :
    t.Trail a (ps ++ qs) b ↔ t.Trail a qs b := by
  rw [trail_append]
  constructor
  · rintro ⟨c, hc, h'⟩
    obtain ⟨-, rfl⟩ := (trail_idle h).1 hc
    exact h'
  · intro h'
    exact ⟨a, (trail_idle h).2 ⟨h'.hasDir_start, rfl⟩, h'⟩

theorem trail_append_idle (h : ∀ p ∈ qs, p.isIdle = true) :
    t.Trail a (ps ++ qs) b ↔ t.Trail a ps b := by
  rw [trail_append]
  constructor
  · rintro ⟨c, h', hc⟩
    obtain ⟨-, rfl⟩ := (trail_idle h).1 hc
    exact h'
  · intro h'
    exact ⟨b, h', (trail_idle h).2 ⟨h'.hasDir_end, rfl⟩⟩

theorem Trail.mono {u : Tree} (hu : ∀ c, t.HasDir c → u.HasDir c) (h : t.Trail a ps b) :
    u.Trail a ps b := by
  induction ps generalizing a with
  | nil => exact ⟨hu a h.1, h.2⟩
  | cons p ps ih =>
    obtain ⟨ha, c, hc, h⟩ := h
    exact ⟨hu a ha, c, hc, ih h⟩

/-- Removing entries leaves a trail as it is or removes a name on it. -/
theorem Trail.lasts_or_breaks {u : Tree} (hu : ∀ c, u.entry? c = none ∨ u.entry? c = t.entry? c)
    (h : t.Trail a ps b) (ha : u.HasDir a) :
    u.Trail a ps b ∨ ∃ before p after n c, ps = before ++ p :: after ∧
      Step.ofPiece p = .enter n ∧ u.Trail a before c ∧ u.entry? (n :: c) = none := by
  induction ps generalizing a with
  | nil => exact Or.inl ⟨ha, h.2⟩
  | cons p ps ih =>
    obtain ⟨-, c, hc, h⟩ := h
    by_cases hcu : u.HasDir c
    · rcases ih h hcu with h | ⟨before, q, after, n, d, rfl, hq, hd, hn⟩
      · exact Or.inl ⟨ha, c, hc, h⟩
      · exact Or.inr ⟨p :: before, q, after, n, d, rfl, hq, ⟨ha, c, hc, hd⟩, hn⟩
    · -- only an entered name can be gone: staying and going up end where `u` has a directory
      cases hp : Step.ofPiece p with
      | stay =>
        rw [hp] at hc
        cases hc
        exact absurd ha hcu
      | up =>
        rw [hp] at hc
        cases hc
        exact absurd (u.hasDir_tail ha) hcu
      | refuse e =>
        rw [hp] at hc
        cases hc
      | enter n =>
        rw [hp] at hc
        cases hc
        have hgone : u.entry? (n :: a) = none := by
          rcases hu (n :: a) with hn | hn
          · exact hn
          · exact absurd (hn.trans h.hasDir_start) hcu
        exact Or.inr ⟨[], p, ps, n, a, rfl, hp, ⟨ha, rfl⟩, hgone⟩

/-- How a walk that leads to `b` in the end gets on from the address `a` by the piece
`p`: it passes an entry that is no link, it ends at a name that nothing has, it stops at
a link in the last place, or it follows a link. -/
inductive GetsOn (t : Tree) (ending : Ending)
    (jump : Address → List Piece → Except IoError Address) (a : Address) (p : Piece)
    (ps : List Piece) (b : Address) : Prop where
  | passes (c : Address) (e : Entry) (hstep : (Step.ofPiece p).from? a = some c)
      (he : t.entry? c = some e) (hkind : e.kind ≠ .link) (hrest : t.walk ending jump c ps = .ok b)
  | ends (n : FileName) (hp : Step.ofPiece p = .enter n) (hn : t.entry? (n :: a) = none)
      (hps : ps = []) (hb : b = n :: a)
  | stops (n : FileName) (target : Path) (hp : Step.ofPiece p = .enter n)
      (hn : t.entry? (n :: a) = some (.link target)) (hps : ps = [])
      (hfollows : ending.followsLink = false) (hb : b = n :: a)
  | jumps (n : FileName) (target : Path) (hp : Step.ofPiece p = .enter n)
      (hn : t.entry? (n :: a) = some (.link target))
      (hfollows : ps = [] → ending.followsLink = true)
      (hjump : jump (if target.isAbsolute then [] else a) (target.pieces ++ ps) = .ok b)

section Walk

variable {ending : Ending} {jump : Address → List Piece → Except IoError Address} {p : Piece}

theorem walk_cons_of_not_refuses (hs : ¬ ending.Refuses p ps) (ha : t.HasDir a) :
    t.walk ending jump a (p :: ps) =
      match Step.ofPiece p with
      | .stay => t.walk ending jump a ps
      | .up => t.walk ending jump a.tail ps
      | .refuse e => .error e
      | .enter n =>
        match t.entry? (n :: a) with
        | none => if ps = [] then .ok (n :: a) else .error .notFound
        | some (.link target) =>
          if ps = [] ∧ !ending.followsLink then .ok (n :: a)
          else jump (if target.isAbsolute then [] else a) (target.pieces ++ ps)
        | some _ => t.walk ending jump (n :: a) ps := by
  rw [Ending.Refuses] at hs
  rewrite [walk, if_pos ha, if_neg hs]
  rfl

theorem walk_cons_of_passes {c : Address} {e : Entry} (hs : ¬ ending.Refuses p ps)
    (ha : t.HasDir a) (hstep : (Step.ofPiece p).from? a = some c) (he : t.entry? c = some e)
    (hkind : e.kind ≠ .link) : t.walk ending jump a (p :: ps) = t.walk ending jump c ps := by
  rw [walk_cons_of_not_refuses hs ha]
  cases hp : Step.ofPiece p with
  | stay =>
    rw [hp] at hstep
    cases hstep
    rfl
  | up =>
    rw [hp] at hstep
    cases hstep
    rfl
  | refuse e =>
    rw [hp] at hstep
    cases hstep
  | enter n =>
    rw [hp] at hstep
    cases hstep
    cases e with
    | dir => simp only [he]
    | file bytes => simp only [he]
    | link target => exact absurd rfl hkind

theorem walk_cons_of_link {n : FileName} {target : Path} (hs : ¬ ending.Refuses p ps)
    (ha : t.HasDir a) (hp : Step.ofPiece p = .enter n)
    (hn : t.entry? (n :: a) = some (.link target))
    (hfollows : ps = [] → ending.followsLink = true) :
    t.walk ending jump a (p :: ps) =
      jump (if target.isAbsolute then [] else a) (target.pieces ++ ps) := by
  rw [walk_cons_of_not_refuses hs ha, hp]
  simp only [hn]
  rw [if_neg]
  rintro ⟨hnil, hstop⟩
  rw [hfollows hnil] at hstop
  cases hstop

/-- A walk that leads somewhere gets on by its first piece from a directory. -/
theorem walk_cons_eq_ok_iff : t.walk ending jump a (p :: ps) = .ok b ↔
    t.HasDir a ∧ ¬ ending.Refuses p ps ∧ t.GetsOn ending jump a p ps b := by
  constructor
  · intro h
    have ha : t.HasDir a := by
      by_contra ha
      rw [walk_of_not_hasDir _ _ _ ha] at h
      cases h
    have hs : ¬ ending.Refuses p ps := by
      intro hs
      rw [Ending.Refuses] at hs
      rw [walk, if_pos ha, if_pos hs] at h
      cases h
    refine ⟨ha, hs, ?_⟩
    rw [walk_cons_of_not_refuses hs ha] at h
    cases hp : Step.ofPiece p with
    | stay =>
      rw [hp] at h
      exact .passes a .dir (by rw [hp]; rfl) ha (by simp [Entry.kind]) h
    | up =>
      rw [hp] at h
      exact .passes a.tail .dir (by rw [hp]; rfl) (t.hasDir_tail ha) (by simp [Entry.kind]) h
    | refuse e =>
      rw [hp] at h
      cases h
    | enter n =>
      rw [hp] at h
      cases hn : t.entry? (n :: a) with
      | none =>
        simp only [hn] at h
        split at h
        · next hps =>
          cases h
          exact .ends n hp hn hps rfl
        · cases h
      | some e =>
        cases e with
        | dir =>
          simp only [hn] at h
          exact .passes (n :: a) .dir (by rw [hp]; rfl) hn (by simp [Entry.kind]) h
        | file bytes =>
          simp only [hn] at h
          exact .passes (n :: a) (.file bytes) (by rw [hp]; rfl) hn (by simp [Entry.kind]) h
        | link target =>
          simp only [hn] at h
          split at h
          · next hlast =>
            cases h
            exact .stops n target hp hn hlast.1 (by simpa using hlast.2) rfl
          · next hlast => exact .jumps n target hp hn (fun hps => by simpa [hps] using hlast) h
  · rintro ⟨ha, hs, hgets⟩
    cases hgets with
    | passes c e hstep he hkind hrest =>
      rw [walk_cons_of_passes hs ha hstep he hkind]
      exact hrest
    | ends n hp hn hps hb =>
      rw [walk_cons_of_not_refuses hs ha, hp]
      simp only [hn]
      rw [if_pos hps, hb]
    | stops n target hp hn hps hfollows hb =>
      rw [walk_cons_of_not_refuses hs ha, hp]
      simp only [hn]
      rw [if_pos ⟨hps, by simpa using hfollows⟩, hb]
    | jumps n target hp hn hfollows hjump =>
      rw [walk_cons_of_link hs ha hp hn hfollows]
      exact hjump

theorem hasDir_of_walk_cons (h : t.walk ending jump a (p :: ps) = .ok b) : t.HasDir a :=
  (walk_cons_eq_ok_iff.1 h).1

/-- A step from a directory leads to something in a directory. -/
theorem hasDir_tail_of_step {c : Address} (ha : t.HasDir a)
    (hstep : (Step.ofPiece p).from? a = some c) : t.HasDir c.tail := by
  cases hp : Step.ofPiece p with
  | stay =>
    rw [hp] at hstep
    cases hstep
    exact t.hasDir_tail ha
  | up =>
    rw [hp] at hstep
    cases hstep
    exact t.hasDir_tail (t.hasDir_tail ha)
  | refuse e =>
    rw [hp] at hstep
    cases hstep
  | enter n =>
    rw [hp] at hstep
    cases hstep
    exact ha

theorem walk_cons_of_none {n : FileName} (hs : ending.Suits (p :: ps)) (ha : t.HasDir a)
    (hp : Step.ofPiece p = .enter n) (hn : t.entry? (n :: a) = none) :
    t.walk ending jump a (p :: ps) = if ps = [] then .ok (n :: a) else .error .notFound := by
  rw [walk_cons_of_not_refuses hs.not_refuses ha, hp]
  simp only [hn]

theorem walk_cons_of_entry {n : FileName} {e : Entry} (hs : ending.Suits (p :: ps))
    (ha : t.HasDir a) (hp : Step.ofPiece p = .enter n) (hn : t.entry? (n :: a) = some e)
    (he : e.kind ≠ .link) :
    t.walk ending jump a (p :: ps) = t.walk ending jump (n :: a) ps :=
  walk_cons_of_passes hs.not_refuses ha (by rw [hp]; rfl) hn he

theorem walk_cons_of_hasDir {c : Address} (hs : ending.Suits (p :: ps)) (ha : t.HasDir a)
    (hstep : (Step.ofPiece p).from? a = some c) (hc : t.HasDir c) :
    t.walk ending jump a (p :: ps) = t.walk ending jump c ps :=
  walk_cons_of_passes hs.not_refuses ha hstep hc (by simp [Entry.kind])

theorem walk_append_of_trail (hs : ending.Suits (ps ++ qs)) (h : t.Trail a ps b) :
    t.walk ending jump a (ps ++ qs) = t.walk ending jump b qs := by
  induction ps generalizing a with
  | nil =>
    obtain ⟨-, rfl⟩ := h
    rfl
  | cons p ps ih =>
    obtain ⟨ha, c, hc, h⟩ := h
    rw [List.cons_append] at hs ⊢
    rw [walk_cons_of_hasDir hs ha hc h.hasDir_start]
    exact ih hs.tail h

theorem walk_of_trail (hs : ending.Suits ps) (h : t.Trail a ps b) :
    t.walk ending jump a ps = .ok b := by
  have hnil : ending.Suits (ps ++ []) := by rwa [List.append_nil]
  have hwalk : t.walk ending jump a (ps ++ []) = t.walk ending jump b [] :=
    walk_append_of_trail hnil h
  rwa [List.append_nil] at hwalk

/-- Without links only a trail leads to a directory. -/
theorem trail_of_walk (hl : t.Linkless) (h : t.walk ending jump a ps = .ok b) (hb : t.HasDir b) :
    t.Trail a ps b := by
  induction ps generalizing a with
  | nil =>
    cases h
    exact ⟨hb, rfl⟩
  | cons p ps ih =>
    obtain ⟨ha, -, hgets⟩ := walk_cons_eq_ok_iff.1 h
    cases hgets with
    | passes c e hstep he hkind hrest => exact ⟨ha, c, hstep, ih hrest⟩
    | ends n hp hn hps heq =>
      rw [heq] at hb
      exact absurd hn hb.ne_none
    | stops n target hp hn => exact absurd hn (hl _ target)
    | jumps n target hp hn => exact absurd hn (hl _ target)

end Walk

section Locate

variable {p : Path}

theorem exists_follow_eq_walk (t : Tree) (ending : Ending) (links : Nat) :
    ∃ jump, t.follow ending links = t.walk ending jump := by
  cases links <;> exact ⟨_, rfl⟩

/-- The system looks up a path it takes by walking along its pieces. -/
theorem exists_locate_eq_walk (t : Tree) (ending : Ending) (hr : p.refusal? = none) :
    ∃ jump, t.locate ending p =
      t.walk ending jump [] (if ending = .name then p.trimmed else p.pieces) := by
  obtain ⟨jump, hj⟩ := t.exists_follow_eq_walk ending maxLinks
  exact ⟨jump, by rw [locate, hr, hj]⟩

section Unfollowed

variable {ending : Ending} {slashes : List Piece}

theorem walk_idle_eq_ok {jump : Address → List Piece → Except IoError Address}
    (hs : ∀ s ∈ slashes, s.isIdle = true) (h : t.walk ending jump a slashes = .ok b) : b = a := by
  induction slashes with
  | nil =>
    cases h
    rfl
  | cons s slashes ih =>
    by_cases ha : t.HasDir a
    · rw [walk_cons_idle _ _ _ ha (hs s List.mem_cons_self)] at h
      exact ih (fun r hr => hs r (List.mem_cons_of_mem _ hr)) h
    · rw [walk_of_not_hasDir _ _ _ ha] at h
      cases h

/-- A walk that reaches an end reaches it, too, if a link in the last place is not
followed, or stops at that link. Slashes at the end can be left out. -/
theorem walk_of_walk_target {jump jump' : Address → List Piece → Except IoError Address}
    (hr : ending.refusesSlash = false) (hs : ∀ s ∈ slashes, s.isIdle = true)
    (hjump : ∀ a ps b, jump a (ps ++ slashes) = .ok b →
      jump' a ps = .ok b ∨ ∃ c target, jump' a ps = .ok c ∧ t.entry? c = some (.link target))
    (h : t.walk .target jump a (ps ++ slashes) = .ok b) :
    t.walk ending jump' a ps = .ok b ∨
      ∃ c target, t.walk ending jump' a ps = .ok c ∧ t.entry? c = some (.link target) := by
  induction ps generalizing a with
  | nil =>
    rw [walk_idle_eq_ok hs h]
    exact Or.inl rfl
  | cons p ps ih =>
    rw [List.cons_append] at h
    obtain ⟨ha, -, hgets⟩ := walk_cons_eq_ok_iff.1 h
    have hsuits := Ending.suits_of_not_refusesSlash hr (p :: ps)
    cases hgets with
    | passes c e hstep he hkind hrest =>
      rw [walk_cons_of_passes hsuits.not_refuses ha hstep he hkind]
      exact ih hrest
    | ends n hp hn hps hb =>
      rw [walk_cons_of_none hsuits ha hp hn, if_pos (List.append_eq_nil_iff.1 hps).1, hb]
      exact Or.inl rfl
    | stops n target hp hn hps hfollows => cases hfollows
    | jumps n target hp hn _ hjumped =>
      by_cases hlast : ps = [] ∧ ending.followsLink = false
      · -- the link is the answer itself
        refine Or.inr ⟨n :: a, target, walk_cons_eq_ok_iff.2 ⟨ha, hsuits.not_refuses, ?_⟩, hn⟩
        exact .stops n target hp hn hlast.1 hlast.2 rfl
      · rw [walk_cons_of_link hsuits.not_refuses ha hp hn fun hps => by simpa [hps] using hlast]
        rw [← List.append_assoc] at hjumped
        exact hjump _ _ _ hjumped

theorem follow_of_follow_target {links : Nat} (hr : ending.refusesSlash = false)
    (hs : ∀ s ∈ slashes, s.isIdle = true)
    (h : t.follow .target links a (ps ++ slashes) = .ok b) :
    t.follow ending links a ps = .ok b ∨
      ∃ c target, t.follow ending links a ps = .ok c ∧ t.entry? c = some (.link target) := by
  induction links generalizing a ps b with
  | zero =>
    apply walk_of_walk_target hr hs _ h
    intro a ps b hjump
    cases hjump
  | succ links ih =>
    apply walk_of_walk_target hr hs _ h
    intro a ps b hjump
    exact ih hjump

end Unfollowed

theorem refusal?_of_locate {ending : Ending} (h : t.locate ending p = .ok a) :
    p.refusal? = none := by
  cases hr : p.refusal? with
  | none => rfl
  | some e =>
    rw [locate, hr] at h
    cases h

theorem find_of_refusal {e : IoError} (hr : p.refusal? = some e) : t.find p = .error e := by
  rw [find, locate, hr]
  rfl

theorem refusal?_of_find {x : Address × Entry} (h : t.find p = .ok x) : p.refusal? = none := by
  cases hr : p.refusal? with
  | none => rfl
  | some e =>
    rw [find_of_refusal hr] at h
    cases h

theorem find_of_locate {e : Entry} (ha : t.locate .target p = .ok a) (he : t.entry? a = some e) :
    t.find p = .ok (a, e) := by
  simp only [find, ha, he, bind, Except.bind]

theorem locate_of_find {e : Entry} (h : t.find p = .ok (a, e)) :
    t.locate .target p = .ok a ∧ t.entry? a = some e := by
  cases hl : t.locate .target p with
  | error e =>
    simp only [find, hl, bind, Except.bind, reduceCtorEq] at h
  | ok b =>
    simp only [find, hl, bind, Except.bind] at h
    cases hb : t.entry? b with
    | none =>
      simp only [hb, reduceCtorEq] at h
    | some f =>
      simp only [hb, Except.ok.injEq, Prod.mk.injEq] at h
      obtain ⟨rfl, rfl⟩ := h
      exact ⟨rfl, hb⟩

theorem locate_entry_of_find {e : Entry} (h : t.find p = .ok (a, e)) :
    t.locate .entry p = .ok a ∨
      ∃ b target, t.locate .entry p = .ok b ∧ t.entry? b = some (.link target) := by
  have hr := refusal?_of_find h
  obtain ⟨hl, -⟩ := locate_of_find h
  rw [locate, hr] at hl ⊢
  have hnil : t.follow .target maxLinks [] (p.pieces ++ []) = .ok a := by
    rw [List.append_nil]
    exact hl
  exact follow_of_follow_target rfl (by simp) hnil

/-- What is left out at the end of the trimmed pieces names nothing. -/
theorem exists_pieces_eq_trimmed_append (p : Path) :
    ∃ slashes, p.pieces = p.trimmed ++ slashes ∧ ∀ s ∈ slashes, s.isIdle = true := by
  refine ⟨(p.pieces.reverse.takeWhile fun s => s.text = "").reverse, ?_, ?_⟩
  · rw [Path.trimmed, ← List.reverse_append, List.takeWhile_append_dropWhile, List.reverse_reverse]
  · intro s hs
    have := List.mem_takeWhile_imp (List.mem_reverse.1 hs)
    simp_all [Piece.isIdle]

theorem trail_trimmed : t.Trail a p.trimmed b ↔ t.Trail a p.pieces b := by
  obtain ⟨slashes, hp, hidle⟩ := exists_pieces_eq_trimmed_append p
  rw [hp, trail_append_idle hidle]

/-- A path along directories leads to the end of its trail, whatever the ending and
whatever links there are. -/
theorem locate_of_trail (ending : Ending) (hr : p.refusal? = none) (h : t.Trail [] p.pieces a)
    (hs : ending.refusesSlash = false) : t.locate ending p = .ok a := by
  obtain ⟨jump, hj⟩ := t.exists_locate_eq_walk ending hr
  rw [hj]
  split
  · exact walk_of_trail (Ending.suits_of_not_refusesSlash hs _) (trail_trimmed.2 h)
  · exact walk_of_trail (Ending.suits_of_not_refusesSlash hs _) h

theorem find_of_trail (hr : p.refusal? = none) (h : t.Trail [] p.pieces a) :
    t.find p = .ok (a, .dir) :=
  find_of_locate (locate_of_trail .target hr h rfl) h.hasDir_end

theorem find_eq_dir_iff (hl : t.Linkless) :
    t.find p = .ok (a, .dir) ↔ p.refusal? = none ∧ t.Trail [] p.pieces a := by
  constructor
  · intro h
    have hr := refusal?_of_find h
    obtain ⟨hloc, ha⟩ := locate_of_find h
    obtain ⟨jump, hj⟩ := t.exists_locate_eq_walk .target hr
    rw [hj] at hloc
    exact ⟨hr, trail_of_walk hl hloc ha⟩
  · rintro ⟨hr, h⟩
    exact find_of_trail hr h

theorem isDir_iff_find : t.isDir p = true ↔ ∃ a, t.find p = .ok (a, .dir) := by
  unfold isDir
  constructor
  · intro h
    split at h
    · next a hf => exact ⟨a, hf⟩
    · cases h
  · rintro ⟨a, hf⟩
    rw [hf]

theorem isFile_iff_find : t.isFile p = true ↔ ∃ a bytes, t.find p = .ok (a, .file bytes) := by
  unfold isFile
  constructor
  · intro h
    split at h
    · next a bytes hf => exact ⟨a, bytes, hf⟩
    · cases h
  · rintro ⟨a, bytes, hf⟩
    rw [hf]

theorem isDir_iff (hl : t.Linkless) :
    t.isDir p = true ↔ p.refusal? = none ∧ ∃ a, t.Trail [] p.pieces a := by
  rw [isDir_iff_find]
  simp only [find_eq_dir_iff hl, exists_and_left]

/-- The name that a path to an entry ends in is that entry or a link. -/
theorem locate_name_of_find {e : Entry} (h : t.find p = .ok (a, e)) :
    t.locate .name p = .ok a ∨
      ∃ b target, t.locate .name p = .ok b ∧ t.entry? b = some (.link target) := by
  have hr := refusal?_of_find h
  obtain ⟨hl, -⟩ := locate_of_find h
  obtain ⟨slashes, hp, hidle⟩ := exists_pieces_eq_trimmed_append p
  rw [locate, hr] at hl ⊢
  have htrimmed : t.follow .target maxLinks [] (p.trimmed ++ slashes) = .ok a := by
    rw [← hp]
    exact hl
  exact follow_of_follow_target rfl hidle htrimmed

theorem trail_body : t.Trail a p.body b ↔ t.Trail a p.pieces b := by
  rw [Path.pieces_eq_lead_append, trail_idle_append fun _ => Path.isIdle_of_mem_lead]

theorem trail_build {s : Start} (hne : Path.build s ps ≠ Path.empty) :
    t.Trail a (Path.build s ps).pieces b ↔ t.Trail a ps b := by
  by_cases hps : ps = []
  · subst hps
    cases s with
    | root => exact trail_idle (by decide)
    | here => exact trail_idle (by decide)
    | bare => exact absurd rfl hne
  · rw [Path.pieces_build hps, trail_idle_append fun _ => Path.isIdle_of_mem_lead]

/-- A path to a directory other than the root has a path above it. -/
theorem exists_parent?_of_find (hfind : t.find p = .ok (a, .dir)) (hroot : a ≠ []) :
    ∃ q, p.parent? = some q := by
  have hr := refusal?_of_find hfind
  rw [← Option.ne_none_iff_exists']
  intro hparent
  obtain ⟨-, hidle⟩ := (Path.parent?_eq_none_iff ((Path.refusal?_eq_none_iff p).1 hr).2.2).1 hparent
  have htrail : t.Trail [] p.pieces [] := (trail_idle hidle).2 ⟨t.hasDir_nil, rfl⟩
  rw [find_of_trail hr htrail] at hfind
  cases hfind
  exact hroot rfl

theorem trail_stem : t.Trail a p.stem b ↔ t.Trail a p.pieces b := by
  rw [Path.stem]
  split
  · next hlast =>
    have hpieces : p.pieces = p.pieces.dropLast ++ [Piece.empty] := by
      rw [← hlast, List.dropLast_concat_getLast]
    rw [hpieces, List.dropLast_concat, trail_append_idle (by simp)]
  · rfl

end Locate

end Tree

end TreeShell
