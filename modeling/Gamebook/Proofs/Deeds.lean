/-
# Deeds of a host

Between its calls a host may write the variables as it likes.  A deed is a call or
such a write (`Deed`), and whatever the deeds are, failed calls among them, the
adventures of a session stay in their places with the load-time actions that they
were loaded with (`Story.roster`), and only linking makes an adventure ready.
-/

import Gamebook.Proofs.References
import Gamebook.Proofs.Registration

namespace Gamebook

/-- What a host does with a session: it makes a call, or it writes the variables. -/
inductive Deed where
  | call (c : Call)
  | write (store : Store)

namespace Session

/-- The session after a deed. -/
def next (s : Session) : Deed → Session
  | .call c => (c.answer s).2
  | .write store => { s with store }

/-- The session after some deeds. -/
def later (s : Session) (deeds : List Deed) : Session := deeds.foldl next s

variable {s : Session} {deeds : List Deed}

/-- Deeds are done one after the other. -/
theorem later_append (s : Session) (deeds more : List Deed) :
    s.later (deeds ++ more) = (s.later deeds).later more := List.foldl_append

/-- What every deed keeps, all of them keep. -/
theorem later_induction {P : Session → Prop} (h : P s) (hstep : ∀ d s, P s → P (s.next d)) :
    P (s.later deeds) :=
  List.foldlRecOn deeds next h fun s hs d _ => hstep d s hs

/-- **Every deed leaves a session sound.** -/
theorem sound_next (h : s.story.Sound) (d : Deed) : (s.next d).story.Sound := by
  cases d with
  | call c => exact Call.sound_answer c h
  | write store => exact h

/-- Whatever is done, a sound session stays sound. -/
theorem sound_later (h : s.story.Sound) : (s.later deeds).story.Sound :=
  later_induction (P := fun s => s.story.Sound) h fun d _ h => sound_next h d

end Session

/-! ## What is loaded -/

/-- The names of the adventures with their load-time actions. -/
def Story.roster (s : Story) : List (String × List Action) :=
  s.adventures.map fun a => (a.name, a.actions)

namespace Story

variable {s t : Story} {known : Identifier → Bool}

/-- An adventure stands on the roster with its load-time actions. -/
theorem mem_roster {a : Adventure} (h : a ∈ s.adventures) : (a.name, a.actions) ∈ s.roster :=
  List.mem_map_of_mem h

/-- Linking changes neither names nor actions. -/
theorem Becomes.roster_eq (h : s.Becomes known t) : t.roster = s.roster := by
  refine map_eq_of_forall₂ h.adventures fun a b hab => ?_
  obtain ⟨start, -, rfl⟩ := hab
  rfl

end Story

namespace Call

variable {c : Call} {s t : Session}

/-- A call keeps the adventures in their places. -/
theorem Leaves.roster (h : c.Leaves s t) (hsound : s.story.Sound) :
    s.story.roster <+: t.story.roster := by
  cases h with
  | same hstory => exact hstory ▸ List.prefix_rfl
  | linked hstory =>
    have hbecomes : s.story.Becomes _ s.story.link.result :=
      Story.becomes_linkAt hsound.identifiers_nodup
    exact hstory ▸ hbecomes.roster_eq ▸ List.prefix_rfl
  | loaded found loads =>
    cases loads with
    | refused | strayed => exact List.prefix_rfl
    | entered =>
      rw [Story.roster, Story.roster, Session.extend, List.map_append]
      exact List.prefix_append ..

/-- No call but one that links makes an adventure ready. -/
theorem ready_answer (h : c ≠ link) : (c.answer s).2.ready = s.ready := by
  cases c with
  | link => contradiction
  | run name answers =>
    rw [answer, Session.run]
    cases s.story.find? name <;> rfl
  | load c =>
    rw [answer, Request.answer_discard]
    have hanswers := c.answers s
    generalize c.request.answer s = answered at hanswers
    cases hanswers with
    | loaded | notFound => rfl
    | found _ loads => cases loads <;> rfl

end Call

namespace Session

variable {s : Session} {deeds : List Deed}

/-- A deed leaves the adventures on the roster in their places. -/
theorem roster_next (h : s.story.Sound) (d : Deed) :
    s.story.roster <+: (s.next d).story.roster := by
  cases d with
  | call c => exact (c.leaves s).1.roster h
  | write store => exact List.prefix_rfl

/-- **What is loaded stays loaded**, with its actions. -/
theorem roster_later (h : s.story.Sound) : s.story.roster <+: (s.later deeds).story.roster :=
  (later_induction (P := fun t => t.story.Sound ∧ s.story.roster <+: t.story.roster)
    ⟨h, List.prefix_rfl⟩ fun d _ ht =>
      ⟨sound_next ht.1 d, ht.2.trans (roster_next ht.1 d)⟩).2

end Session
end Gamebook
