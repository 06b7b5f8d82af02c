/-!
Walking a directed graph. `visitAll` walks depth first and lists the nodes in the order in which
they are finished, each after the nodes it leads to; a node that is met again on its own path is
a circle. `spread` gathers every node that can be reached. Both end because each step away from
the start uses up one of finitely many nodes.
-/

namespace PackChoice

/-- A graph as a walk sees it. -/
structure Graph (α ε : Type) where
  /-- The nodes that may lead to others. -/
  nodes : List α
  /-- Where a node leads, in order, or why that cannot be told. -/
  next : α → Except ε (List α)
  /-- The error for a circle; its first node is repeated at the end. -/
  circle : List α → ε

namespace Graph

variable {α ε : Type} [DecidableEq α]

/-- How many nodes a list leaves out. -/
def unmet (nodes met : List α) : Nat := nodes.countP fun x => !decide (x ∈ met)

theorem unmet_le_of_subset (nodes : List α) {met met' : List α} (h : ∀ x ∈ met, x ∈ met') :
    unmet nodes met' ≤ unmet nodes met :=
  List.countP_mono_left fun x _ hx => by
    simp only [Bool.not_eq_true', decide_eq_false_iff_not] at *
    exact fun hm => hx (h x hm)

theorem unmet_lt_of_mem {nodes met met' : List α} {x : α} (h : ∀ y ∈ met, y ∈ met')
    (hx : x ∈ nodes) (hm : x ∉ met) (hm' : x ∈ met') : unmet nodes met' < unmet nodes met := by
  induction nodes with
  | nil => cases hx
  | cons y ys ih =>
    have hle := unmet_le_of_subset ys h
    simp only [unmet, List.countP_cons] at *
    by_cases hyx : y = x
    · subst hyx
      simp only [hm, hm', decide_true, decide_false, Bool.not_true, Bool.not_false,
        if_true, Bool.false_eq_true, if_false]
      omega
    · have hlt := ih ((List.mem_cons.1 hx).resolve_left (Ne.symm hyx))
      by_cases h1 : y ∈ met
      · simp only [h1, h y h1, decide_true, Bool.not_true, Bool.false_eq_true, if_false]
        omega
      · simp only [h1, decide_false, Bool.not_false, if_true]
        split <;> omega

mutual

/-- Walks from one node. `path` leads to the node, the last step first; `done` lists the nodes
that are finished. -/
def visit (g : Graph α ε) (path done : List α) (x : α) : Except ε (List α) :=
  if x ∈ done then .ok done
  else if x ∈ path then
    .error (g.circle (x :: (path.takeWhile (· ≠ x)).reverse ++ [x]))
  else
    match g.next x with
    | .error e => .error e
    | .ok ys =>
      if x ∈ g.nodes then
        match visitAll g (x :: path) done ys with
        | .error e => .error e
        | .ok done => .ok (done ++ [x])
      else .ok (done ++ [x])
termination_by (unmet g.nodes path, 0, 0)
decreasing_by
  exact Prod.Lex.left _ _ (unmet_lt_of_mem (fun y hy => List.mem_cons_of_mem _ hy) ‹_› ‹_›
    List.mem_cons_self)

/-- Walks from each of the nodes in turn. -/
def visitAll (g : Graph α ε) (path done : List α) (xs : List α) : Except ε (List α) :=
  match xs with
  | [] => .ok done
  | x :: xs =>
    match visit g path done x with
    | .error e => .error e
    | .ok done => visitAll g path done xs
termination_by (unmet g.nodes path, 1, xs.length)
decreasing_by
  · exact Prod.Lex.right _ (Prod.Lex.left _ _ (by decide))
  · exact Prod.Lex.right _ (Prod.Lex.right _ (by simp))

end

/-- The nodes that can be reached from `starts`, in the order in which the walk finishes them. -/
def finishOrder (g : Graph α ε) (starts : List α) : Except ε (List α) := g.visitAll [] [] starts

end Graph

/-- The nodes among `ys` that are not found yet. -/
def freshNodes {α : Type} [DecidableEq α] (nodes ys found : List α) : List α :=
  nodes.filter fun y => decide (y ∈ ys) && !decide (y ∈ found)

theorem mem_freshNodes {α : Type} [DecidableEq α] {nodes ys found : List α} {y : α} :
    y ∈ freshNodes nodes ys found ↔ y ∈ nodes ∧ y ∈ ys ∧ y ∉ found := by
  simp [freshNodes]

/-- Adds to `found` every node that `queue` leads to in any number of steps. -/
def spread {α : Type} [DecidableEq α] (nodes : List α) (next : α → List α) (found queue : List α) :
    List α :=
  match queue with
  | [] => found
  | x :: queue =>
    if freshNodes nodes (next x) found = [] then spread nodes next found queue
    else
      spread nodes next (found ++ freshNodes nodes (next x) found)
        (queue ++ freshNodes nodes (next x) found)
termination_by (Graph.unmet nodes found, queue.length)
decreasing_by
  · exact Prod.Lex.right _ (by simp)
  · obtain ⟨y, hy⟩ := List.exists_mem_of_ne_nil _ ‹_›
    obtain ⟨hn, -, hf⟩ := mem_freshNodes.1 hy
    exact Prod.Lex.left _ _ (Graph.unmet_lt_of_mem (fun z hz => List.mem_append_left _ hz) hn hf
      (List.mem_append_right _ hy))

end PackChoice
