import NuKSM.Theorems.BTree.Arrays

/-! New nodes, freed nodes and adopted children. -/

namespace NuKSM.BTree
open BPlus

variable {order : Nat} {s : Slab Node} {a : NodeId} {L F : List (NodeId × BptCell)} {D : List NodeId}

theorem nodesPerSlab_pos : 0 < nodesPerSlab := by decide

/-- A node fresh from `make_node`. -/
def freshNode (order : Nat) : Node where
  keys := List.replicate (order - 1) 0
  pointers := List.replicate order .null
  parent := none
  isLeaf := false
  numKeys := 0
  next := none

theorem makeNode_runs (h : Holds order s L D) :
    ∃ a s', Runs (makeNode order) s a (s'.put a (freshNode order)) ∧ Holds order s' L (a :: D) := by
  obtain ⟨a, s', hrun, hown, -⟩ := h.alloc (z := Node.zero) nodesPerSlab_pos
  exact ⟨a, s', Runs.bind hrun (Runs.bind (modifyNode_runs hown.lt_dead) Runs.pure), hown⟩

theorem matches_freshNode : Matches order (freshNode order) ⟨.branch [] [], none⟩ where
  keys_length := by simp [freshNode]
  pointers_length := by simp [freshNode]
  parent := rfl
  isLeaf := rfl
  numKeys := rfl
  keys := List.nil_prefix
  pointers := List.nil_prefix
  next := nofun

theorem matches_freshLeaf (horder : 0 < order) :
    Matches order { freshNode order with isLeaf := true } ⟨.leaf [] none, none⟩ where
  keys_length := by simp [freshNode]
  pointers_length := by simp [freshNode]
  parent := rfl
  isLeaf := rfl
  numKeys := rfl
  keys := List.nil_prefix
  pointers := List.nil_prefix
  next := by
    rintro entries next ⟨⟩
    have hlt : order - 1 < order := by omega
    simp [freshNode, linkPtr, hlt]

theorem makeLeaf_runs (h : Holds order s L D) :
    ∃ a s', Runs (makeLeaf order) s a (s'.put a { freshNode order with isLeaf := true }) ∧ Holds order s' L (a :: D) := by
  obtain ⟨a, s', hrun, hown⟩ := makeNode_runs h
  exact ⟨a, s', Runs.bind hrun (Runs.bind (modifyNode_put hown.lt_dead) Runs.pure), hown⟩

/-- A node that is put in a cell that is not listed yet. -/
theorem Holds.claim_put {n : Node} {c : BptCell} (h : Holds order s L (a :: D)) (hn : Matches order n c) :
    Holds order (s.put a n) ((a, c) :: L) D :=
  (h.put_dead n).claim (by rwa [Slab.put_mem_self])

/-- The arrays of a node are freed, and then the node. -/
theorem freeNode_runs (h : Holds order s L (a :: D)) :
    ∃ s₁ s', Runs (freeArrays a) s () s₁ ∧ Runs (freeNode a) s₁ () s' ∧ Holds order s' L D := by
  have hput := h.put_dead { s.mem a with keys := [], pointers := [] }
  obtain ⟨s', hrun, hown, -⟩ := hput.release
  exact ⟨_, s', modifyNode_runs h.lt_dead, hrun, hown⟩

/-! ### Parents -/

/-- What a node holds under another parent. -/
def underParent (q : Option NodeId) (x : NodeId × BptCell) : NodeId × BptCell := (x.1, { x.2 with parent := q })

theorem Matches.setParent {n : Node} {c : BptCell} (h : Matches order n c) (q : Option NodeId) :
    Matches order { n with parent := q } { c with parent := q } :=
  { h with parent := rfl }

theorem Holds.setParent {x : NodeId × BptCell} (h : Holds order s (x :: L) D) (q : Option NodeId) :
    ∃ s', Runs (setParent x.1 q) s () s' ∧ Holds order s' (underParent q x :: L) D :=
  ⟨_, setParent_runs (h.lt (List.mem_cons_self ..)),
    h.put_head (Matches.setParent (h.holds x (List.mem_cons_self ..)) q)⟩

/-- The children of a node get it as their parent. -/
theorem adoptChildren_runs {K : List Key} {q : Option NodeId} {u : List (NodeId × BptCell)}
    (h : Holds order s (u ++ F) D) (ha : (a, (⟨.branch K (u.map Prod.fst), q⟩ : BptCell)) ∈ F) :
    ∃ s', Runs (adoptChildren a u.length) s () s' ∧ Holds order s' (u.map (underParent (some a)) ++ F) D := by
  -- The loop is at the child `vs.length`; the children `vs` have their new parent.
  suffices hloop : ∀ (ws vs : List (NodeId × BptCell)) (s : Slab Node),
      Holds order s (vs.map (underParent (some a)) ++ ws ++ F) D → u = vs ++ ws →
      ∃ s', Runs (Prog.loopUp (fun i _ => do
        let p ← getPtr a i
        let child ← p.asNode
        BTree.setParent child (some a)) vs.length ws.length ()) s () s' ∧
        Holds order s' (u.map (underParent (some a)) ++ F) D from hloop u [] s (by simpa using h) rfl
  intro ws
  induction ws with
  | nil =>
    intro vs s hs hus
    subst hus
    exact ⟨s, Runs.pure, by simpa using hs⟩
  | cons w ws ih =>
    intro vs s hs hus
    subst hus
    have hmem : (a, (⟨.branch K ((vs ++ w :: ws).map Prod.fst), q⟩ : BptCell)) ∈
        vs.map (underParent (some a)) ++ w :: ws ++ F := List.mem_append_right _ ha
    have hptr : (s.mem a).pointers[vs.length]? = some (.node w.1) :=
      getElem?_of_isPrefix (hs.holds _ hmem).pointers (by simp)
    obtain ⟨s₁, hrun, h₁⟩ := Holds.setParent (x := w) (hs.perm (by
      rw [List.append_assoc]
      exact List.perm_middle)) (some a)
    obtain ⟨s₂, hrest, h₂⟩ := ih (vs ++ [w]) s₁ (h₁.perm (by
      simp only [List.map_append, List.map_cons, List.map_nil, List.append_assoc, List.cons_append, List.nil_append]
      exact List.perm_middle.symm)) (by simp)
    refine ⟨s₂, Runs.bind (Runs.bind (getPtr_runs (hs.lt hmem) hptr) (Runs.bind asNode_runs hrun)) ?_, h₂⟩
    simpa using hrest

end NuKSM.BTree
