/-
# The menu that is shown is obeyed

A scene with several choices shows its open ones under the numbers from one on, in their
order, and then those that are closed and always visible under a cross
(`Menu.entries_eq`, `Stage.offer_eq_menu`).  A line takes a choice if it writes one of the
numbers (`Menu.Picks`), and then the choice is the one that is shown with it
(`Menu.choose?_of_picks`); after any other line the hint is shown and the question is asked
again.  So however many lines miss, the first that writes a number of the menu decides, and
no variable has changed until then (`Stage.menu_obeyed`).
-/

import Gamebook.Proofs.Choosing

namespace Gamebook

namespace Menu

/-- The line of a choice under a mark. -/
def line (label : Choice → String) (mark : String) (c : Choice) : String :=
  mark ++ ": " ++ label c

/-- The lines of open choices, under the numbers from one on, and of closed ones. -/
def lines (label : Choice → String) (opened closed : List Choice) : List String :=
  (opened.zipIdx 1).map (fun (c, k) => line label (toString k) c) ++ closed.map (line label "X")

/-- Marked choices are shown with their labels, where these can be rendered. -/
theorem entries_eq {placeholder : Option String} {s : Store} {label : Choice → String}
    {marked : List (String × Choice)}
    (h : ∀ e ∈ marked, e.2.label.render placeholder s = .ok (label e.2)) :
    entries placeholder s marked = (marked.map fun e => line label e.1 e.2, none) := by
  induction marked with
  | nil => rfl
  | cons e marked ih =>
    obtain ⟨mark, c⟩ := e
    obtain ⟨hc, hrest⟩ := List.forall_mem_cons.1 h
    simp only [entries, hc, ih hrest, List.map_cons]
    rfl

/-- What is shown are the open choices with their numbers, and the closed ones that are
always visible. -/
theorem map_shown (label : Choice → String) (m : Menu) :
    (m.shown.map fun e => line label e.1 e.2) =
      lines label m.available (m.unavailable.filter (·.alwaysVisible)) := by
  simp only [shown, numbered, lines, closedMark, List.map_append, List.map_map,
    List.zipIdx_eq_map_add (i := 1)]
  congr 1
  refine List.map_congr_left fun e _ => ?_
  rw [Function.comp_apply, Function.comp_apply, Nat.add_comm]

/-- A line writes one of the numbers from one up to a count. -/
structure Picks (count : Nat) (line : String) (k : Nat) : Prop where
  written : Decimal.readWhole (Text.trim line) = some (k : Int)
  first : 1 ≤ k
  last : k ≤ count

/-- Lines miss up to the first that writes a number, if one does. -/
theorem exists_first_pick (count : Nat) (answers : List String) :
    (∀ line ∈ answers, ∀ k, ¬Picks count line k) ∨
    ∃ misses line k rest, answers = misses ++ line :: rest ∧
      (∀ line ∈ misses, ∀ k, ¬Picks count line k) ∧ Picks count line k := by
  induction answers with
  | nil => exact .inl nofun
  | cons line answers ih =>
    by_cases hline : ∃ k, Picks count line k
    · obtain ⟨k, hpicks⟩ := hline
      exact .inr ⟨[], line, k, answers, rfl, nofun, hpicks⟩
    · have hmiss := not_exists.1 hline
      obtain hmisses | ⟨misses, first, k, rest, rfl, hmisses, hpicks⟩ := ih
      · exact .inl (List.forall_mem_cons.2 ⟨hmiss, hmisses⟩)
      · exact .inr ⟨line :: misses, first, k, rest, rfl,
          List.forall_mem_cons.2 ⟨hmiss, hmisses⟩, hpicks⟩

variable {m : Menu} {line : String} {k : Nat}

/-- A number of the menu takes the choice that is shown with it. -/
theorem choose?_of_picks (h : Picks m.available.length line k) :
    ∃ c, m.choose? line = some c ∧ ∀ other, (other, k) ∈ m.available.zipIdx 1 ↔ other = c := by
  have hlt : k - 1 < m.available.length := by
    have := h.first
    have := h.last
    omega
  have hget : m.available[k - 1]? = some m.available[k - 1] := List.getElem?_eq_getElem hlt
  refine ⟨m.available[k - 1], ?_, fun other => ?_⟩
  · have hpositive : ¬(k : Int) < 1 := by
      have := h.first
      omega
    simp only [choose?, h.written, Option.bind_eq_bind, Option.bind_some, if_neg hpositive,
      Int.toNat_natCast, hget]
  · rw [List.mk_mem_zipIdx_iff_le_and_getElem?_sub, hget, Option.some.injEq]
    exact ⟨fun hother => hother.2.symm, fun heq => ⟨h.first, heq.symm⟩⟩

/-- A line that writes no number of the menu takes nothing. -/
theorem choose?_of_not_picks (h : ∀ k, ¬Picks m.available.length line k) :
    m.choose? line = none := by
  cases hread : Decimal.readWhole (Text.trim line) with
  | none => simp only [choose?, hread, Option.bind_eq_bind, Option.bind_none]
  | some n =>
    simp only [choose?, hread, Option.bind_eq_bind, Option.bind_some]
    split
    · rfl
    · rename_i hpositive
      -- a number from one on that is none of the menu lies behind its end
      have hwritten : Decimal.readWhole (Text.trim line) = some (n.toNat : Int) := by
        rw [hread, Int.toNat_of_nonneg (by omega)]
      have hlarge : ¬n.toNat ≤ m.available.length := fun hle =>
        h n.toNat ⟨hwritten, by omega, hle⟩
      exact List.getElem?_eq_none (by omega)

end Menu

namespace Stage

variable {g : Stage} {history : History Identifier} {s : Store} {scene : Scene}
  {isOpen : Choice → Bool} {label : Choice → String}

/-- A scene with several choices of which some are open, all of which have conditions that
can be evaluated and, where they are shown, labels that can be rendered. -/
structure CanOffer (g : Stage) (s : Store) (scene : Scene) (isOpen : Choice → Bool)
    (label : Choice → String) : Prop where
  several : 2 ≤ scene.choices.length
  condition : ∀ c ∈ scene.choices, c.isOpen s = .ok (isOpen c)
  label : ∀ c ∈ scene.choices, isOpen c = true ∨ c.alwaysVisible = true →
    c.label.render g.placeholder s = .ok (label c)
  some_open : ∃ c ∈ scene.choices, isOpen c = true

/-- The open choices of a scene and the others. -/
def menuOf (scene : Scene) (isOpen : Choice → Bool) : Menu :=
  ⟨scene.choices.filter isOpen, scene.choices.filter fun c => !isOpen c⟩

/-- A play that waits for the number of a choice. -/
def menuPlay (history : History Identifier) (scene : Scene) (isOpen : Choice → Bool) : Play :=
  ⟨scene.identifier, history, .number (menuOf scene isOpen)⟩

/-- Several choices of which some are open are offered as a menu. -/
theorem offer_of_apart {m : Menu} {lines : List String} (several : 2 ≤ scene.choices.length)
    (apart : Choice.partition s scene.choices = .ok (m.available, m.unavailable))
    (some_open : m.available ≠ [])
    (shown : Menu.entries g.placeholder s m.shown = (lines, none)) :
    g.offer history s scene = ⟨"" :: Menu.header :: lines ++ ["", Menu.question], s,
      .waiting ⟨scene.identifier, history, .number m⟩⟩ := by
  obtain ⟨available, unavailable⟩ := m
  obtain ⟨c, opened, rfl⟩ := List.exists_cons_of_ne_nil some_open
  rcases hchoices : scene.choices with _ | ⟨first, _ | ⟨second, rest⟩⟩
  · simp [hchoices] at several
  · simp [hchoices] at several
  · rw [hchoices] at apart
    simp only [offer, hchoices, apart, shown]

/-- **The menu has the open choices under their numbers** and, under a cross, the closed ones
that are always visible. -/
theorem offer_eq_menu (h : g.CanOffer s scene isOpen label) :
    g.offer history s scene =
      ⟨"" :: Menu.header :: Menu.lines label (scene.choices.filter isOpen)
          (scene.choices.filter fun c => c.alwaysVisible && !isOpen c) ++ ["", Menu.question],
        s, .waiting (menuPlay history scene isOpen)⟩ := by
  have hsome : (menuOf scene isOpen).available ≠ [] := by
    obtain ⟨c, hc, hopen⟩ := h.some_open
    exact List.ne_nil_of_mem (List.mem_filter.2 ⟨hc, hopen⟩)
  have hlabels : ∀ e ∈ (menuOf scene isOpen).shown,
      e.2.label.render g.placeholder s = .ok (label e.2) := by
    intro e he
    rcases List.mem_append.1 he with he | he
    · obtain ⟨⟨c, i⟩, hci, rfl⟩ := List.mem_map.1 he
      obtain ⟨hc, hopen⟩ := List.mem_filter.1 (List.fst_mem_of_mem_zipIdx hci)
      exact h.label c hc (.inl hopen)
    · obtain ⟨c, hc, rfl⟩ := List.mem_map.1 he
      obtain ⟨hc, hvisible⟩ := List.mem_filter.1 hc
      exact h.label c (List.mem_filter.1 hc).1 (.inr hvisible)
  rw [offer_of_apart h.several (Choice.partition_eq h.condition) hsome (Menu.entries_eq hlabels),
    Menu.map_shown]
  simp only [menuOf, List.filter_filter]
  rfl

variable {answers : List String} {p : Play} {m : Menu} {lines : List String}

/-- A line that writes no number of the menu is answered by the hint and the question. -/
theorem answer_of_not_picks (hp : p.prompt = .number m) {line : String}
    (h : ∀ k, ¬Menu.Picks m.available.length line k) :
    g.answer p s line = ⟨[m.hint, Menu.question], s, .waiting p⟩ := by
  simp only [answer, hp, Menu.choose?_of_not_picks h]

/-- **Lines that miss are read one by one.**  For each of them the hint and the question are
shown again, and the play goes on with the lines behind them. -/
theorem play_misses (hp : p.prompt = .number m) {misses : List String}
    (h : ∀ line ∈ misses, ∀ k, ¬Menu.Picks m.available.length line k) (rest lines : List String) :
    g.play (misses ++ rest) ⟨lines, s, .waiting p⟩ =
      let t := g.play rest ⟨[], s, .waiting p⟩
      { t with
        lines := lines ++ misses.flatMap (fun _ => [m.hint, Menu.question]) ++ t.lines
        reads := misses.length + t.reads } := by
  induction misses generalizing lines with
  | nil =>
    cases rest <;> simp [play]
  | cons line misses ih =>
    obtain ⟨hline, hmisses⟩ := List.forall_mem_cons.1 h
    rw [List.cons_append, play]
    simp only [answer_of_not_picks hp hline, ih hmisses]
    simp only [List.flatMap_cons, List.length_cons, List.append_assoc]
    congr 1
    omega

/-- **The menu that is shown is obeyed.**  Let a scene have several choices of which some are
open.  Its open choices are shown in their order under the numbers from one on, then under a
cross the closed ones that are always visible, and no others.  A line that writes none of
these numbers is answered by the hint and the question; a line that writes one takes the
choice that is shown with it.  Any lines either all miss or have a first one that writes such
a number.  So a play reads on while lines miss, until the player answers no more or a line
writes a number, and the variables are those that the menu was shown with. -/
theorem menu_obeyed (h : g.CanOffer s scene isOpen label) (history : History Identifier) :
    let opened := scene.choices.filter isOpen
    let closed := scene.choices.filter fun c => c.alwaysVisible && !isOpen c
    let menu := ["", "You could..."] ++ Menu.lines label opened closed ++ ["", "What do you do?"]
    let again := ["Select one of the options by entering a number from 1 to " ++
      toString opened.length ++ ".", "What do you do?"]
    let p := menuPlay history scene isOpen
    g.offer history s scene = ⟨menu, s, .waiting p⟩ ∧
    (∀ line, (∀ k, ¬Menu.Picks opened.length line k) →
      g.answer p s line = ⟨again, s, .waiting p⟩) ∧
    (∀ line k, Menu.Picks opened.length line k →
      ∃ c, (∀ other, (other, k) ∈ opened.zipIdx 1 ↔ other = c) ∧
        g.answer p s line = g.take p s c) ∧
    (∀ answers, (∀ line ∈ answers, ∀ k, ¬Menu.Picks opened.length line k) ∨
      ∃ misses line k rest, answers = misses ++ line :: rest ∧
        (∀ line ∈ misses, ∀ k, ¬Menu.Picks opened.length line k) ∧
        Menu.Picks opened.length line k) ∧
    ∀ misses, (∀ line ∈ misses, ∀ k, ¬Menu.Picks opened.length line k) →
      g.play misses (g.offer history s scene) =
        ⟨menu ++ misses.flatMap fun _ => again, misses.length + 1, .error .endOfInput, s⟩ ∧
      ∀ line k rest, Menu.Picks opened.length line k →
        ∃ c, (∀ other, (other, k) ∈ opened.zipIdx 1 ↔ other = c) ∧
          g.play (misses ++ line :: rest) (g.offer history s scene) =
            let t := g.play rest (g.take p s c)
            { t with
              lines := menu ++ misses.flatMap (fun _ => again) ++ t.lines
              reads := misses.length + 1 + t.reads } := by
  intro opened closed menu again p
  have hoffer : g.offer history s scene = ⟨menu, s, .waiting p⟩ := offer_eq_menu h
  have htakes : ∀ line k, Menu.Picks opened.length line k →
      ∃ c, (∀ other, (other, k) ∈ opened.zipIdx 1 ↔ other = c) ∧
        g.answer p s line = g.take p s c := by
    intro line k hpicks
    obtain ⟨c, hc, hshown⟩ := Menu.choose?_of_picks (m := menuOf scene isOpen) hpicks
    exact ⟨c, hshown, answer_of_takes hc⟩
  have hmiss : ∀ line, (∀ k, ¬Menu.Picks opened.length line k) →
      g.answer p s line = ⟨again, s, .waiting p⟩ :=
    fun line hnone => answer_of_not_picks (p := p) (m := menuOf scene isOpen) rfl hnone
  refine ⟨hoffer, hmiss, htakes, Menu.exists_first_pick _, fun misses hmisses => ?_⟩
  have hplay := fun rest =>
    play_misses (g := g) (s := s) (p := p) (m := menuOf scene isOpen) rfl hmisses rest menu
  rw [hoffer]
  refine ⟨?_, fun line k rest hpicks => ?_⟩
  · have hend := hplay []
    rw [List.append_nil] at hend
    rw [hend]
    simp only [play, List.append_nil]
    rfl
  · obtain ⟨c, hshown, hanswer⟩ := htakes line k hpicks
    refine ⟨c, hshown, ?_⟩
    rw [hplay, play]
    simp only [hanswer, List.nil_append, Nat.add_assoc, Nat.add_comm]
    rfl

/-- A menu of two open choices, one that is closed and shown, and one that is closed and
hidden: the empty line, a number of no choice and a word miss, and ` +2 ` takes the second
open choice. -/
theorem menu_obeyed_hidden :
    let start : Identifier := ⟨"a", "start", by decide, by decide⟩
    let shut : Condition := ⟨"1 > 2", .ofExpr "1 > 2" (.binary .greater (.number 1) (.number 2))⟩
    let choice (label : String) (condition : Option Condition) (alwaysVisible : Bool) : Choice :=
      ⟨⟨label, [.literal label]⟩, .resolved start, condition, alwaysVisible, []⟩
    let scene : Scene := ⟨start, ⟨"S", [.literal "S"]⟩, [], [],
      [choice "fly" (some shut) true, choice "stay" none false, choice "swim" (some shut) false,
        choice "leave" none true], none, none⟩
    let isOpen (c : Choice) : Bool := c.condition.isNone
    ∀ (g : Stage) (history : History Identifier),
      g.CanOffer .empty scene isOpen (·.label.source) ∧
      (∀ line ∈ ["", "3", "two"], ∀ k, ¬Menu.Picks 2 line k) ∧ Menu.Picks 2 " +2 " 2 ∧
      (g.offer history .empty scene).lines =
        ["", "You could...", "1: stay", "2: leave", "X: fly", "", "What do you do?"] ∧
      ∀ rest, (g.play (["", "3", "two"] ++ " +2 " :: rest) (g.offer history .empty scene)).reads =
        4 + (g.play rest (g.take (menuPlay history scene isOpen) .empty
          (choice "leave" none true))).reads := by
  intro start shut choice scene isOpen g history
  have hshut : shut.holds .empty = .ok false := by decide +kernel
  have hoffer : g.CanOffer .empty scene isOpen (·.label.source) := by
    refine ⟨by simp [scene], ?_, ?_, ⟨choice "stay" none false, by simp [scene], rfl⟩⟩
    · simp [scene, choice, isOpen, Choice.isOpen, hshut]
    · simp only [scene, List.mem_cons, List.not_mem_nil, or_false]
      rintro c (rfl | rfl | rfl | rfl) - <;> rfl
  have hmisses : ∀ line ∈ ["", "3", "two"], ∀ k, ¬Menu.Picks 2 line k := by
    have hread : ∀ line ∈ ["", "3", "two"],
        Decimal.readWhole (Text.trim line) = none ∨ Decimal.readWhole (Text.trim line) = some 3 := by
      decide +kernel
    rintro line hline k ⟨hwritten, -, hlast⟩
    obtain hnone | hthree := hread line hline
    · rw [hnone] at hwritten
      contradiction
    · have : (3 : Int) = k := Option.some.inj (hthree.symm.trans hwritten)
      omega
  have hpicks : Menu.Picks 2 " +2 " 2 := ⟨by decide +kernel, by decide, by decide⟩
  obtain ⟨hshown, -, -, -, hplay⟩ := menu_obeyed hoffer history
  refine ⟨hoffer, hmisses, hpicks, hshown ▸ rfl, fun rest => ?_⟩
  obtain ⟨c, hc, hrun⟩ := (hplay _ hmisses).2 _ _ rest hpicks
  have hleave : choice "leave" none true = c :=
    (hc _).1 (List.mem_cons_of_mem _ (List.mem_singleton.2 rfl))
  rw [hrun, hleave]
  rfl

end Stage
end Gamebook
