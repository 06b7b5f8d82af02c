import Mathlib.Logic.Function.Basic
import PackChoice.Proofs.Walk

/-!
Walking with colours. A tour is a depth-first walk told without a bound: a node is white until it is
met, grey while it stands on the path and black once it is finished, and a tour enters every white
node. A walk enters only nodes that are listed, which is why it ends. Where all nodes that lead on
are listed, a tour ends as well, in one way and with what the walk gives (`finishOrder_eq_tour`). On
the way the grey nodes are those of the path and the black ones those that are finished
(`Tour.Agrees`), so the place where a circle is cut out of the path is always found
(`Agrees.circleAt_eq`).
-/

namespace PackChoice.Graph

/-- What a tour knows of a node. -/
inductive Colour where
  /-- Not met yet. -/
  | white
  /-- On the path. -/
  | grey
  /-- Finished. -/
  | black

/-- How far a tour has come. -/
structure Tour (α : Type) where
  colour : α → Colour
  /-- The nodes entered but not left, the last step last. -/
  path : List α
  /-- The nodes left, in this order. -/
  order : List α

variable {α ε : Type} {path done : List α} {x : α}

namespace Tour

/-- A tour that has met no node. -/
def start : Tour α := ⟨fun _ => .white, [], []⟩

section Steps

variable [DecidableEq α]

/-- The tour steps into a node. -/
def enter (t : Tour α) (x : α) : Tour α :=
  { t with colour := Function.update t.colour x .grey, path := t.path ++ [x] }

/-- The tour steps back from the node in which it stands. -/
def leave (t : Tour α) (x : α) : Tour α :=
  ⟨Function.update t.colour x .black, t.path.dropLast, t.order ++ [x]⟩

/-- The path from a node on, with the node repeated at the end. For a node that is not on the path
this would be the whole path. -/
def circleAt (t : Tour α) (x : α) : List α :=
  t.path.drop ((t.path.findIdx? (· = x)).getD 0) ++ [x]

end Steps

/-! ## Tours and walks in one place -/

/-- A tour has come as far as a walk with a path and finished nodes. -/
structure Agrees (t : Tour α) (path done : List α) : Prop where
  path_eq : t.path = path.reverse
  order_eq : t.order = done
  nodup : path.Nodup
  grey_iff : ∀ x, t.colour x = .grey ↔ x ∈ path
  black_iff : ∀ x, t.colour x = .black ↔ x ∈ done

theorem agrees_start : (start : Tour α).Agrees [] [] where
  path_eq := rfl
  order_eq := rfl
  nodup := List.nodup_nil
  grey_iff x := by simp [start]
  black_iff x := by simp [start]

namespace Agrees

variable {t : Tour α}

theorem white (h : t.Agrees path done) (hd : x ∉ done) (hp : x ∉ path) : t.colour x = .white := by
  cases hx : t.colour x with
  | white => rfl
  | grey => exact absurd ((h.grey_iff x).1 hx) hp
  | black => exact absurd ((h.black_iff x).1 hx) hd

variable [DecidableEq α]

theorem enter (h : t.Agrees path done) (hd : x ∉ done) (hp : x ∉ path) :
    (t.enter x).Agrees (x :: path) done where
  path_eq := by rw [Tour.enter, h.path_eq, List.reverse_cons]
  order_eq := h.order_eq
  nodup := List.nodup_cons.2 ⟨hp, h.nodup⟩
  grey_iff y := by
    by_cases hy : y = x
    · simp [Tour.enter, hy]
    · simp [Tour.enter, hy, h.grey_iff]
  black_iff y := by
    by_cases hy : y = x
    · simp [Tour.enter, hy, hd]
    · simp [Tour.enter, hy, h.black_iff]

theorem leave (h : t.Agrees (x :: path) done) : (t.leave x).Agrees path (done ++ [x]) where
  path_eq := by rw [Tour.leave, h.path_eq, List.reverse_cons, List.dropLast_concat]
  order_eq := by rw [Tour.leave, h.order_eq]
  nodup := (List.nodup_cons.1 h.nodup).2
  grey_iff y := by
    by_cases hy : y = x
    · simp [Tour.leave, hy, (List.nodup_cons.1 h.nodup).1]
    · simp [Tour.leave, hy, h.grey_iff]
  black_iff y := by
    by_cases hy : y = x
    · simp [Tour.leave, hy]
    · simp [Tour.leave, hy, h.black_iff]

/-- A grey node is on the path once, so the circle is what the walk cuts out. -/
theorem circleAt_eq (h : t.Agrees path done) (hx : x ∈ path) :
    t.circleAt x = x :: (path.takeWhile (· ≠ x)).reverse ++ [x] := by
  obtain ⟨-, rest, hrest⟩ := split_at_mem hx
  have hmiss : x ∉ rest := by
    have hnodup := h.nodup
    rw [hrest] at hnodup
    exact (List.nodup_cons.1 (List.nodup_append.1 hnodup).2.1).1
  have hpath : t.path = rest.reverse ++ x :: (path.takeWhile (· ≠ x)).reverse := by
    rw [h.path_eq]
    conv_lhs => rw [hrest]
    simp
  have hfound : t.path.findIdx? (· = x) = some rest.length := by
    have hnone : rest.reverse.findIdx? (· = x) = none := by
      simp only [List.findIdx?_eq_none_iff, List.mem_reverse, decide_eq_false_iff_not]
      exact fun y hy he => hmiss (he ▸ hy)
    rw [hpath, List.findIdx?_append, hnone, List.findIdx?_cons]
    simp
  rw [circleAt, hfound, hpath]
  simp

end Agrees

end Tour

/-! ## Tours -/

variable [DecidableEq α] {g : Graph α ε} {t u : Tour α} {xs ys : List α}

/-- How a tour through some nodes in turn ends: it fails, or it has come so far. -/
inductive Tours (g : Graph α ε) : Tour α → List α → Except ε (Tour α) → Prop where
  | nil {t : Tour α} : Tours g t [] (.ok t)
  | black {t : Tour α} {x : α} {xs : List α} {r : Except ε (Tour α)} :
    t.colour x = .black → Tours g t xs r → Tours g t (x :: xs) r
  | grey {t : Tour α} {x : α} {xs : List α} :
    t.colour x = .grey → Tours g t (x :: xs) (.error (g.circle (t.circleAt x)))
  | stuck {t : Tour α} {x : α} {xs : List α} {e : ε} :
    t.colour x = .white → g.next x = .error e → Tours g t (x :: xs) (.error e)
  | failed {t : Tour α} {x : α} {xs ys : List α} {e : ε} :
    t.colour x = .white → g.next x = .ok ys → Tours g (t.enter x) ys (.error e) →
      Tours g t (x :: xs) (.error e)
  | passed {t u : Tour α} {x : α} {xs ys : List α} {r : Except ε (Tour α)} :
    t.colour x = .white → g.next x = .ok ys → Tours g (t.enter x) ys (.ok u) →
      Tours g (u.leave x) xs r → Tours g t (x :: xs) r

namespace Tours

theorem unique {r r' : Except ε (Tour α)} (h : g.Tours t xs r) (h' : g.Tours t xs r') :
    r = r' := by
  induction h generalizing r' with
  | nil =>
    cases h'
    rfl
  | black hx _ ih => cases h' <;> grind
  | grey hx => cases h' <;> grind
  | stuck hx hn => cases h' <;> grind
  | failed hx hn _ ih => cases h' <;> grind
  | passed hx hn _ _ ih ih' => cases h' <;> grind

theorem append {r : Except ε (Tour α)} (h : g.Tours t xs (.ok u)) (h' : g.Tours u ys r) :
    g.Tours t (xs ++ ys) r := by
  generalize hr : Except.ok u = ended at h
  induction h with
  | nil =>
    obtain rfl := Except.ok.inj hr
    exact h'
  | black hx _ ih => exact .black hx (ih hr)
  | grey | stuck | failed => cases hr
  | passed hx hn hys _ _ ih => exact .passed hx hn hys (ih hr)

theorem append_of_error {e : ε} (h : g.Tours t xs (.error e)) (ys : List α) :
    g.Tours t (xs ++ ys) (.error e) := by
  generalize hr : Except.error e = ended at h
  induction h with
  | nil => cases hr
  | black hx _ ih => exact .black hx (ih hr)
  | grey hx =>
    obtain rfl := Except.error.inj hr
    exact .grey hx
  | stuck hx hn =>
    obtain rfl := Except.error.inj hr
    exact .stuck hx hn
  | failed hx hn hys _ =>
    obtain rfl := Except.error.inj hr
    exact .failed hx hn hys
  | passed hx hn hys _ _ ih => exact .passed hx hn hys (ih hr)

end Tours

/-- A tour through some nodes ends, and as a walk does: with the same error, or as far as a walk
that has finished the nodes `done`. -/
inductive Ends (g : Graph α ε) (t : Tour α) (path xs : List α) : Except ε (List α) → Prop where
  | ok {done : List α} {u : Tour α} :
    g.Tours t xs (.ok u) → u.Agrees path done → Ends g t path xs (.ok done)
  | error {e : ε} : g.Tours t xs (.error e) → Ends g t path xs (.error e)

theorem ends_visitAll : ∀ (path done xs : List α) {t : Tour α}, t.Agrees path done →
    (∀ x ∈ xs, g.Covers x) → g.Ends t path xs (g.visitAll path done xs) := by
  intro path done xs
  refine Graph.visitAll.induct g
    (fun path done x => ∀ {t : Tour α}, t.Agrees path done → g.Covers x →
      g.Ends t path [x] (g.visit path done x))
    (fun path done xs => ∀ {t : Tour α}, t.Agrees path done → (∀ x ∈ xs, g.Covers x) →
      g.Ends t path xs (g.visitAll path done xs))
    ?done ?circle ?stuck ?failed ?walked ?leaf ?nil ?headFailed ?cons path done xs
  case done =>
    intro path done x hx t ht _
    rw [visit_of_mem_done hx]
    exact .ok (.black ((ht.black_iff x).2 hx) .nil) ht
  case circle =>
    intro path done x hd hp t ht _
    rw [visit_of_mem_path hd hp, ← ht.circleAt_eq hp]
    exact .error (.grey ((ht.grey_iff x).2 hp))
  case stuck =>
    intro path done x hd hp e hn t ht _
    rw [visit_of_next_error hd hp hn]
    exact .error (.stuck (ht.white hd hp) hn)
  case failed =>
    intro path done x hd hp ys hn hx e he ih t ht hc
    have hys := ih (ht.enter hd hp) fun y hy => hc.leads ⟨ys, hn, hy⟩
    rw [he] at hys
    rw [visit_of_next_ok hd hp hn hx, he]
    obtain ⟨⟩ | ⟨hys⟩ := hys
    exact .error (.failed (ht.white hd hp) hn hys)
  case walked =>
    intro path done x hd hp ys hn hx d hw ih t ht hc
    have hys := ih (ht.enter hd hp) fun y hy => hc.leads ⟨ys, hn, hy⟩
    rw [hw] at hys
    rw [visit_of_next_ok hd hp hn hx, hw]
    cases hys with
    | ok hys hu => exact .ok (.passed (ht.white hd hp) hn hys .nil) hu.leave
  case leaf =>
    -- A node that is not listed leads nowhere, so the tour comes straight back from it.
    intro path done x hd hp ys hn hx t ht hc
    rw [visit_of_not_mem_nodes hd hp hn hx]
    have hys : ys = [] := List.eq_nil_iff_forall_not_mem.2 fun y hy =>
      hx (hc x y .refl ⟨ys, hn, hy⟩)
    rw [hys] at hn
    exact .ok (.passed (ht.white hd hp) hn .nil .nil) (ht.enter hd hp).leave
  case nil =>
    intro path done t ht _
    rw [visitAll_nil]
    exact .ok .nil ht
  case headFailed =>
    intro path done x xs e he ih t ht hc
    have hx := ih ht (hc x List.mem_cons_self)
    rw [he] at hx
    rw [visitAll_cons, he]
    cases hx with
    | error hx => exact .error (hx.append_of_error xs)
  case cons =>
    intro path done x xs d hv ih ih' t ht hc
    have hx := ih ht (hc x List.mem_cons_self)
    rw [hv] at hx
    rw [visitAll_cons, hv]
    show g.Ends t path (x :: xs) (g.visitAll path d xs)
    cases hx with
    | ok hx hu =>
      have hxs := ih' hu fun y hy => hc y (List.mem_cons_of_mem _ hy)
      generalize g.visitAll path d xs = ended at hxs ⊢
      cases hxs with
      | ok hxs hw => exact .ok (hx.append hxs) hw
      | error hxs => exact .error (hx.append hxs)

/-- Where all nodes that lead on are listed, a tour ends in exactly one way, which is how the walk
ends. -/
theorem finishOrder_eq_tour {starts : List α} (hc : ∀ x ∈ starts, g.Covers x) :
    (∃ r, g.Tours .start starts r) ∧
      ∀ r, g.Tours .start starts r → r.map Tour.order = g.finishOrder starts := by
  obtain ⟨r, hr, hmap⟩ : ∃ r, g.Tours .start starts r ∧
      r.map Tour.order = g.finishOrder starts := by
    have hends := ends_visitAll [] [] starts Tour.agrees_start hc
    rw [← finishOrder] at hends
    generalize g.finishOrder starts = ended at hends ⊢
    cases hends with
    | ok h hu => exact ⟨_, h, congrArg Except.ok hu.order_eq⟩
    | error h => exact ⟨_, h, rfl⟩
  exact ⟨⟨r, hr⟩, fun r' hr' => hr'.unique hr ▸ hmap⟩

end PackChoice.Graph
