/-
# Depth-first exploration

An exploration of a graph goes through a list of nodes in order.  A node that was
visited before is passed over; any other one is visited, then what lies behind it
is explored, and only then the rest of the list.  `DepthFirst next visited todo
found halt` says that the exploration of `todo` finds `found` in this order.  If
`halt` is a node, the exploration ended early, since that node could not be visited.

| case | list | finds |
| --- | --- | --- |
| `done` | empty | nothing |
| `halt` | begins with a node that cannot be visited | nothing |
| `skip` | begins with a visited node | what the rest finds |
| `stop` | begins with a new node behind which it ends early | the node, what was found behind |
| `enter` | begins with any other new node | the node, what is behind it, what the rest finds |

A node counts as visited while what lies behind it is explored, so that a cycle
which leads back to it ends there.  Nothing is missed by that: what an exploration
found that went through leads to found or visited nodes only
(`DepthFirst.closed`), so everything that can be reached without a visited node is
found (`DepthFirst.mem_iff`).
-/

import Mathlib.Logic.Relation

namespace Gamebook

variable {α : Type} {next : α → List α} {visited todo found : List α} {halt : Option α}

/-- What an exploration finds, and the node at which it ended early, if it did. -/
inductive DepthFirst (next : α → List α) : List α → List α → List α → Option α → Prop
  | done {visited : List α} : DepthFirst next visited [] [] none
  | halt {visited todo : List α} {x : α} (new : x ∉ visited) :
      DepthFirst next visited (x :: todo) [] (some x)
  | skip {visited todo found : List α} {x : α} {halt : Option α} (old : x ∈ visited)
      (rest : DepthFirst next visited todo found halt) :
      DepthFirst next visited (x :: todo) found halt
  | stop {visited todo below : List α} {x y : α} (new : x ∉ visited)
      (behind : DepthFirst next (visited ++ [x]) (next x) below (some y)) :
      DepthFirst next visited (x :: todo) (x :: below) (some y)
  | enter {visited todo below found : List α} {x : α} {halt : Option α} (new : x ∉ visited)
      (behind : DepthFirst next (visited ++ [x]) (next x) below none)
      (rest : DepthFirst next (visited ++ x :: below) todo found halt) :
      DepthFirst next visited (x :: todo) (x :: (below ++ found)) halt

namespace DepthFirst

/-- A step of a graph to a node that was not visited. -/
def Step (next : α → List α) (visited : List α) (x y : α) : Prop := y ∈ next x ∧ y ∉ visited

/-- Nothing is found that was visited before. -/
theorem not_mem_visited (h : DepthFirst next visited todo found halt) :
    ∀ y ∈ found, y ∉ visited := by
  induction h with
  | done => exact nofun
  | halt new => exact nofun
  | skip old rest ih => exact ih
  | stop new behind ih =>
    rintro y (_ | ⟨_, hy⟩)
    · exact new
    · exact fun hv => ih y hy (List.mem_append_left _ hv)
  | enter new behind rest ihb ihr =>
    rintro y (_ | ⟨_, hy⟩)
    · exact new
    · rcases List.mem_append.1 hy with hy | hy
      · exact fun hv => ihb y hy (List.mem_append_left _ hv)
      · exact fun hv => ihr y hy (List.mem_append_left _ hv)

/-- Nothing is found twice. -/
theorem nodup (h : DepthFirst next visited todo found halt) : found.Nodup := by
  induction h with
  | done => exact List.nodup_nil
  | halt new => exact List.nodup_nil
  | skip old rest ih => exact ih
  | stop new behind ih =>
    refine List.nodup_cons.2 ⟨fun hx => ?_, ih⟩
    exact behind.not_mem_visited _ hx (by simp)
  | enter new behind rest ihb ihr =>
    have hbehind := behind.not_mem_visited
    have hrest := rest.not_mem_visited
    refine List.nodup_cons.2 ⟨fun hx => ?_, List.nodup_append.2 ⟨ihb, ihr, ?_⟩⟩
    · rcases List.mem_append.1 hx with hx | hx
      · exact hbehind _ hx (by simp)
      · exact hrest _ hx (by simp)
    · rintro y hy z hz rfl
      exact hrest y hz (by simp [hy])

/-- A path that avoids more nodes avoids fewer as well. -/
theorem reflTransGen_of_subset {v w : List α} {x y : α} (hvw : v ⊆ w)
    (hxy : Relation.ReflTransGen (Step next w) x y) : Relation.ReflTransGen (Step next v) x y :=
  have hstep : Step next w ≤ Step next v := fun _ _ step => ⟨step.1, fun hv => step.2 (hvw hv)⟩
  Relation.ReflTransGen.mono hstep x y hxy

/-- What can be reached behind a node can be reached from it. -/
theorem reflTransGen_of_behind {x y z : α} (hz : z ∈ next x) (hnew : z ∉ visited ++ [x])
    (hzy : Relation.ReflTransGen (Step next (visited ++ [x])) z y) :
    Relation.ReflTransGen (Step next visited) x y := by
  have hsub : visited ⊆ visited ++ [x] := List.subset_append_left visited [x]
  have hstep : Step next visited x z := ⟨hz, fun hv => hnew (hsub hv)⟩
  exact .head hstep (reflTransGen_of_subset hsub hzy)

/-- What is found can be reached from the list without a visited node. -/
theorem exists_reflTransGen (h : DepthFirst next visited todo found halt) :
    ∀ y ∈ found, ∃ x ∈ todo, x ∉ visited ∧ Relation.ReflTransGen (Step next visited) x y := by
  induction h with
  | done => exact nofun
  | halt new => exact nofun
  | skip old rest ih =>
    intro y hy
    obtain ⟨x, hx, hreach⟩ := ih y hy
    exact ⟨x, List.mem_cons_of_mem _ hx, hreach⟩
  | stop new behind ih =>
    rintro y (_ | ⟨_, hy⟩)
    · exact ⟨_, List.mem_cons_self .., new, .refl⟩
    · obtain ⟨z, hz, hnew, hzy⟩ := ih y hy
      exact ⟨_, List.mem_cons_self .., new, reflTransGen_of_behind hz hnew hzy⟩
  | enter new behind rest ihb ihr =>
    rintro y (_ | ⟨_, hy⟩)
    · exact ⟨_, List.mem_cons_self .., new, .refl⟩
    · rcases List.mem_append.1 hy with hy | hy
      · obtain ⟨z, hz, hnew, hzy⟩ := ihb y hy
        exact ⟨_, List.mem_cons_self .., new, reflTransGen_of_behind hz hnew hzy⟩
      · obtain ⟨z, hz, hnew, hzy⟩ := ihr y hy
        refine ⟨z, List.mem_cons_of_mem _ hz, fun hv => hnew (List.mem_append_left _ hv), ?_⟩
        exact reflTransGen_of_subset (List.subset_append_left ..) hzy

/-- **What an exploration found that went through is closed.**  It leaves no node of
the list out, and what it found leads to found or visited nodes only. -/
theorem closed (h : DepthFirst next visited todo found none) :
    (∀ x ∈ todo, x ∈ visited ∨ x ∈ found) ∧
      ∀ y ∈ found, ∀ z ∈ next y, z ∈ visited ∨ z ∈ found := by
  -- `none` is an index of the relation, so it is set free for the induction.
  generalize hhalt : none = halt at h
  induction h with
  | done => exact ⟨nofun, nofun⟩
  | halt new => contradiction
  | stop new behind ih => contradiction
  | skip old rest ih =>
    obtain ⟨hlist, hfound⟩ := ih hhalt
    refine ⟨?_, hfound⟩
    rintro x (_ | ⟨_, hx⟩)
    · exact .inl old
    · exact hlist x hx
  | enter new behind rest ihb ihr =>
    obtain ⟨hblist, hbfound⟩ := ihb rfl
    obtain ⟨hrlist, hrfound⟩ := ihr hhalt
    simp only [List.mem_append, List.mem_cons, List.not_mem_nil, or_false] at *
    refine ⟨?_, ?_⟩
    · rintro x (rfl | hx)
      · exact .inr (.inl rfl)
      · have := hrlist x hx
        grind
    · rintro y (rfl | hy | hy) z hz
      · have := hblist z hz
        grind
      · have := hbfound y hy z hz
        grind
      · have := hrfound y hy z hz
        grind

/-- **An exploration finds what can be reached.**  One that went through finds exactly
the nodes to which a path leads from the list without a visited node. -/
theorem mem_iff (h : DepthFirst next visited todo found none) (y : α) :
    y ∈ found ↔
      ∃ x ∈ todo, x ∉ visited ∧ Relation.ReflTransGen (Step next visited) x y := by
  obtain ⟨hlist, hfound⟩ := h.closed
  refine ⟨h.exists_reflTransGen y, ?_⟩
  rintro ⟨x, hx, hnew, hreach⟩
  induction hreach with
  | refl => exact (hlist x hx).resolve_left hnew
  | tail _ step ih => exact (hfound _ ih _ step.1).resolve_left step.2

/-- An exploration looks only behind nodes that were not visited before. -/
theorem congr {next' : α → List α} (h : DepthFirst next visited todo found halt)
    (hnext : ∀ y, y ∉ visited → next y = next' y) :
    DepthFirst next' visited todo found halt := by
  induction h with
  | done => exact .done
  | halt new => exact .halt new
  | skip old rest ih => exact .skip old (ih hnext)
  | stop new behind ih =>
    refine .stop new ?_
    rw [← hnext _ new]
    exact ih fun y hy => hnext y fun hv => hy (List.mem_append_left _ hv)
  | enter new behind rest ihb ihr =>
    refine .enter new ?_ (ihr fun y hy => hnext y fun hv => hy (List.mem_append_left _ hv))
    rw [← hnext _ new]
    exact ihb fun y hy => hnext y fun hv => hy (List.mem_append_left _ hv)

end DepthFirst
end Gamebook
