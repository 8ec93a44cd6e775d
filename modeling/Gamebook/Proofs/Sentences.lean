/-
# Infix sentences

A sentence of a grammar is an operand, a sentence behind a unary operator, two
sentences with a binary operator between them, or a sentence in parentheses
(`Grammar.Sentence`).  Whether tokens form a sentence can be seen from the left to
the right: it is enough to know whether an operand is expected and how many
parentheses are open (`Grammar.wellPlaced`, `Grammar.sentence_iff_wellPlaced`).

`Grammar.arrange` keeps less: an operand and a parenthesis are taken in every
place.  Whether the postfix order counts out, with one value left in the end
and every operator finding its operands, is all that is asked later
(`Entry.count`).  Sentences count out: so many values as binary operators wait are
there, and one more where no operand is expected
(`Grammar.arrange_of_wellPlaced`).
-/

import Gamebook.Formula.Postfix

namespace Gamebook

/-- How many values are there after some entries, each operator taking its
operands and leaving one value. -/
def Entry.count {α β : Type} : List (Entry α β) → Nat → Option Nat
  | [], n => some n
  | .operand _ :: es, n => count es (n + 1)
  | .unary _ :: es, n + 1 => count es (n + 1)
  | .binary _ :: es, n + 2 => count es (n + 1)
  | _, _ => none

namespace Grammar

variable {α β : Type}

/-- Tokens that form a sentence. -/
inductive Sentence (g : Grammar α β) : List Token → Prop
  | operand (o : Operand) : Sentence g [.operand o]
  | unary {s : String} {op : Operator α} (hop : g.unary.lookup s = some op) {ts : List Token}
      (h : Sentence g ts) : Sentence g (.operator s :: ts)
  | binary {s : String} {op : Operator β} (hop : g.binary.lookup s = some op)
      {tl tr : List Token} (hl : Sentence g tl) (hr : Sentence g tr) :
      Sentence g (tl ++ .operator s :: tr)
  | group {ts : List Token} (h : Sentence g ts) : Sentence g (.opening :: (ts ++ [.closing]))

/-- Whether tokens go on a sentence, at a place where an operand is expected or
not and some parentheses are open. -/
def wellPlaced (g : Grammar α β) : List Token → Bool → Nat → Bool
  | [], expecting, depth => !expecting && depth == 0
  | .operand _ :: ts, expecting, depth => expecting && wellPlaced g ts false depth
  | .opening :: ts, expecting, depth => expecting && wellPlaced g ts true (depth + 1)
  | .closing :: ts, expecting, depth + 1 => !expecting && wellPlaced g ts false depth
  | .closing :: _, _, 0 => false
  | .operator s :: ts, true, depth => (g.unary.lookup s).isSome && wellPlaced g ts true depth
  | .operator s :: ts, false, depth => (g.binary.lookup s).isSome && wellPlaced g ts true depth

variable {g : Grammar α β} {ts : List Token}

/-- Behind a sentence no operand is expected. -/
theorem Sentence.wellPlaced_append (h : g.Sentence ts) (rest : List Token) (depth : Nat) :
    g.wellPlaced (ts ++ rest) true depth = g.wellPlaced rest false depth := by
  induction h generalizing rest depth with
  | operand o => rfl
  | @unary s op hop ts h ih =>
    rw [List.cons_append, wellPlaced, hop, ih]
    rfl
  | @binary s op hop tl tr hl hr ihl ihr =>
    rw [List.append_assoc, ihl, List.cons_append, wellPlaced, hop, ihr]
    rfl
  | @group ts h ih =>
    rw [List.cons_append, List.append_assoc, wellPlaced, ih]
    rfl

/-- Tokens that start with a sentence, behind which there is nothing or a
closing parenthesis. -/
def Opens (g : Grammar α β) (depth : Nat) (ts : List Token) : Prop :=
  ∃ front behind, ts = front ++ behind ∧ g.Sentence front ∧
    (behind = [] ∨ ∃ rest, behind = .closing :: rest) ∧ g.wellPlaced behind false depth = true

/-- Behind a sentence there is nothing, a closing parenthesis, or a binary
operator and another sentence. -/
theorem Sentence.opens_append {left : List Token} {depth : Nat} (hleft : g.Sentence left)
    (h : g.wellPlaced ts false depth = true)
    (hright : ∀ rest, rest.length < ts.length → g.wellPlaced rest true depth = true →
      g.Opens depth rest) : g.Opens depth (left ++ ts) := by
  cases ts with
  | nil => exact ⟨left, [], rfl, hleft, .inl rfl, h⟩
  | cons t rest =>
    cases t with
    | operand o => exact absurd h (by simp [wellPlaced])
    | opening => exact absurd h (by simp [wellPlaced])
    | closing => exact ⟨left, _, rfl, hleft, .inr ⟨rest, rfl⟩, h⟩
    | operator s =>
      simp only [wellPlaced, Bool.and_eq_true, Option.isSome_iff_exists] at h
      obtain ⟨⟨op, hop⟩, h⟩ := h
      obtain ⟨right, behind, rfl, hr, hends, hbehind⟩ := hright rest (Nat.lt_succ_self _) h
      refine ⟨left ++ .operator s :: right, behind, ?_, .binary hop hleft hr, hends, hbehind⟩
      rw [List.append_assoc, List.cons_append]

/-- **Where an operand is expected, well placed tokens start with a sentence.** -/
theorem opens_of_wellPlaced {depth : Nat} (h : g.wellPlaced ts true depth = true) :
    g.Opens depth ts := by
  induction hn : ts.length using Nat.strongRecOn generalizing ts depth with
  | ind n ih =>
    subst hn
    cases ts with
    | nil => exact absurd h (by simp [wellPlaced])
    | cons t rest =>
      have shorter {us : List Token} (hle : us.length ≤ rest.length) {depth : Nat}
          (h : g.wellPlaced us true depth = true) : g.Opens depth us :=
        ih us.length (Nat.lt_succ_of_le hle) h rfl
      cases t with
      | operand o =>
        have hrest : g.wellPlaced rest false depth = true := by simpa [wellPlaced] using h
        exact (Sentence.operand o).opens_append hrest fun us hlt hus =>
          shorter (Nat.le_of_lt hlt) hus
      | opening =>
        have hrest : g.wellPlaced rest true (depth + 1) = true := by simpa [wellPlaced] using h
        obtain ⟨front, behind, rfl, hfront, hends, hbehind⟩ := shorter (Nat.le_refl _) hrest
        rcases hends with rfl | ⟨after, rfl⟩
        · exact absurd hbehind (by simp [wellPlaced])
        · have hafter : g.wellPlaced after false depth = true := by simpa [wellPlaced] using hbehind
          have hgroup := (Sentence.group hfront).opens_append hafter fun us hlt hus =>
            shorter (by simp only [List.length_append, List.length_cons]; omega) hus
          rwa [List.cons_append, List.append_assoc] at hgroup
      | closing => cases depth <;> exact absurd h (by simp [wellPlaced])
      | operator s =>
        simp only [wellPlaced, Bool.and_eq_true, Option.isSome_iff_exists] at h
        obtain ⟨⟨op, hop⟩, hrest⟩ := h
        obtain ⟨front, behind, rfl, hfront, hends, hbehind⟩ := shorter (Nat.le_refl _) hrest
        exact ⟨.operator s :: front, behind, rfl, .unary hop hfront, hends, hbehind⟩

/-- **Sentences are the tokens in which every one is well placed.** -/
theorem sentence_iff_wellPlaced : g.Sentence ts ↔ g.wellPlaced ts true 0 = true := by
  constructor
  · intro h
    have hplaced := h.wellPlaced_append [] 0
    rw [List.append_nil] at hplaced
    exact hplaced
  · intro h
    obtain ⟨front, behind, rfl, hfront, hends, hbehind⟩ := opens_of_wellPlaced h
    rcases hends with rfl | ⟨after, rfl⟩
    · rwa [List.append_nil]
    · exact absurd hbehind (by simp [wellPlaced])

end Grammar

namespace Pending

variable {α β : Type}

/-- How many binary operators wait on a stack. -/
def binaries : List (Pending α β) → Nat
  | [] => 0
  | binary _ :: stack => binaries stack + 1
  | _ :: stack => binaries stack

/-- How many parentheses are open on a stack. -/
def openings : List (Pending α β) → Nat
  | [] => 0
  | opening :: stack => openings stack + 1
  | _ :: stack => openings stack

/-- Released operators find their operands: every binary one that is released
makes one value of two. -/
theorem count_released {p : Pending α β → Bool} (hp : p opening = false)
    (stack : List (Pending α β)) (es : List (Entry α β)) :
    Entry.count ((stack.takeWhile p).filterMap entry? ++ es) (binaries stack + 1) =
      Entry.count es (binaries (stack.dropWhile p) + 1) := by
  induction stack with
  | nil => rfl
  | cons q stack ih =>
    cases hq : p q with
    | false => simp only [List.takeWhile_cons, List.dropWhile_cons, hq]; rfl
    | true =>
      simp only [List.takeWhile_cons, List.dropWhile_cons, hq, if_true, ← ih]
      cases q with
      | opening => exact absurd hq (by simp [hp])
      | unary op => rfl
      | binary op => rfl

/-- Released operators are no parentheses. -/
theorem openings_dropWhile {p : Pending α β → Bool} (hp : p opening = false)
    (stack : List (Pending α β)) : openings (stack.dropWhile p) = openings stack := by
  induction stack with
  | nil => rfl
  | cons q stack ih =>
    cases hq : p q with
    | false => simp only [List.dropWhile_cons, hq]; rfl
    | true =>
      simp only [List.dropWhile_cons, hq, if_true, ih]
      cases q with
      | opening => exact absurd hq (by simp [hp])
      | unary op => rfl
      | binary op => rfl

/-- A parenthesis is found if one is open. -/
theorem exists_dropWhile_isOperator {stack : List (Pending α β)} {depth : Nat}
    (h : openings stack = depth + 1) :
    ∃ below, stack.dropWhile isOperator = opening :: below ∧ openings below = depth := by
  induction stack with
  | nil => exact absurd h (by simp [openings])
  | cons q stack ih =>
    cases q with
    | opening => exact ⟨stack, rfl, Nat.succ.inj h⟩
    | unary op => exact ih h
    | binary op => exact ih h

end Pending

namespace Grammar

variable {α β : Type} {g : Grammar α β} {ts : List Token}

/-- Tokens whose postfix order counts out: every operator finds its operands and
one value is left. -/
def Counted (g : Grammar α β) (ts : List Token) : Prop :=
  ∃ es, g.ofTokens ts = .ok es ∧ Entry.count es 0 = some 1

/-- In the end all operators are released. -/
theorem count_release {stack : List (Pending α β)} (h : Pending.openings stack = 0) :
    ∃ es, release stack = .ok es ∧ Entry.count es (Pending.binaries stack + 1) = some 1 := by
  induction stack with
  | nil => exact ⟨[], rfl, rfl⟩
  | cons q stack ih =>
    cases q with
    | opening => exact absurd h (by simp [Pending.openings])
    | unary op =>
      obtain ⟨es, hes, hcount⟩ := ih h
      exact ⟨.unary op.meaning :: es, by rw [release, hes]; rfl, hcount⟩
    | binary op =>
      obtain ⟨es, hes, hcount⟩ := ih h
      exact ⟨.binary op.meaning :: es, by rw [release, hes]; rfl, hcount⟩

/-- **Well placed tokens count out.**  There are as many values as binary
operators that wait, and one more where no operand is expected. -/
theorem arrange_of_wellPlaced {stack : List (Pending α β)} {expecting : Bool}
    (h : g.wellPlaced ts expecting (Pending.openings stack) = true) :
    ∃ es, g.arrange ts stack expecting = .ok es ∧
      Entry.count es (Pending.binaries stack + if expecting then 0 else 1) = some 1 := by
  induction ts generalizing stack expecting with
  | nil =>
    simp only [wellPlaced, Bool.and_eq_true, Bool.not_eq_true', beq_iff_eq] at h
    obtain ⟨rfl, h⟩ := h
    exact count_release h
  | cons t ts ih =>
    cases t with
    | operand o =>
      simp only [wellPlaced, Bool.and_eq_true] at h
      obtain ⟨rfl, h⟩ := h
      obtain ⟨es, hes, hcount⟩ := ih h
      exact ⟨.operand o :: es, by rw [arrange, hes]; rfl, hcount⟩
    | opening =>
      simp only [wellPlaced, Bool.and_eq_true] at h
      obtain ⟨rfl, h⟩ := h
      exact @ih (.opening :: stack) true h
    | closing =>
      cases hdepth : Pending.openings stack with
      | zero => exact absurd h (by simp [wellPlaced, hdepth])
      | succ depth =>
        simp only [hdepth, wellPlaced, Bool.and_eq_true, Bool.not_eq_true'] at h
        obtain ⟨rfl, h⟩ := h
        obtain ⟨below, hbelow, hopen⟩ := Pending.exists_dropWhile_isOperator hdepth
        rw [← hopen] at h
        obtain ⟨es, hes, hcount⟩ := ih h
        refine ⟨(stack.takeWhile Pending.isOperator).filterMap Pending.entry? ++ es, ?_, ?_⟩
        · simp only [arrange, hbelow, hes]
          rfl
        · have hreleased := Pending.count_released (p := Pending.isOperator) rfl stack es
          rw [hbelow] at hreleased
          exact hreleased.trans hcount
    | operator s =>
      cases expecting with
      | true =>
        simp only [wellPlaced, Bool.and_eq_true, Option.isSome_iff_exists] at h
        obtain ⟨⟨op, hop⟩, h⟩ := h
        obtain ⟨es, hes, hcount⟩ := @ih (.unary op :: stack) true h
        exact ⟨es, by rw [arrange]; simp only [if_true, hop, hes], hcount⟩
      | false =>
        simp only [wellPlaced, Bool.and_eq_true, Option.isSome_iff_exists] at h
        obtain ⟨⟨op, hop⟩, h⟩ := h
        have hreleased := Pending.count_released (p := Pending.precedes op) rfl stack
        rw [← Pending.openings_dropWhile (p := Pending.precedes op) rfl stack] at h
        -- what is left of the stack has the incoming operator on top
        obtain ⟨es, hes, hcount⟩ :=
          @ih (.binary op :: stack.dropWhile (Pending.precedes op)) true h
        refine ⟨(stack.takeWhile (Pending.precedes op)).filterMap Pending.entry? ++ es, ?_, ?_⟩
        · simp only [arrange, Bool.false_eq_true, if_false, hop, hes]
          rfl
        · exact (hreleased es).trans hcount

/-- **Sentences count out.** -/
theorem Sentence.counted (h : g.Sentence ts) : g.Counted ts :=
  @arrange_of_wellPlaced _ _ g ts [] true (sentence_iff_wellPlaced.1 h)

end Grammar
end Gamebook
