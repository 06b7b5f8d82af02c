import Mathlib.Data.List.Chain
import Mathlib.Logic.Relation
import PackChoice.Walk

/-!
What a depth-first walk finds. A walk that succeeds lists exactly the nodes that its starts reach,
each once and behind all nodes it leads to (`finishOrder_eq_ok`). A walk that fails has met a node
whose successors cannot be told, or a circle, which it reports as it stands in the graph
(`finishOrder_eq_error`). Hence a walk succeeds exactly when its starts reach neither
(`finishOrder_ok_iff`). A walk from more starts goes on from where the walk from the first ones
ends (`finishOrder_append_eq_ok`). Spreading finds what can be reached in at least one step
(`mem_spread_iff`).
-/

namespace PackChoice.Graph

open Relation (ReflTransGen TransGen)

variable {α ε : Type} {g : Graph α ε}

/-! ## Ways through a graph -/

/-- One node leads to another in one step. -/
def Leads (g : Graph α ε) (x y : α) : Prop := ∃ ys, g.next x = .ok ys ∧ y ∈ ys

/-- One node leads to another in any number of steps, or in none. -/
def Reaches (g : Graph α ε) : α → α → Prop := ReflTransGen g.Leads

/-- A node leads back to itself. -/
def OnCircle (g : Graph α ε) (x : α) : Prop := TransGen g.Leads x x

/-- What is reached from `x` and leads on is among the listed nodes of the graph. -/
def Covers (g : Graph α ε) (x : α) : Prop := ∀ y z, g.Reaches x y → g.Leads y z → y ∈ g.nodes

theorem Covers.leads {x y : α} (h : g.Covers x) (hxy : g.Leads x y) : g.Covers y :=
  fun z w hz hw => h z w (ReflTransGen.head hxy hz) hw

/-! ## Finished nodes -/

/-- The lists in which nodes can be finished: each node once, behind all nodes it leads to. -/
inductive Finished (g : Graph α ε) : List α → Prop where
  | nil : Finished g []
  | snoc {done ys : List α} {x : α} : Finished g done → x ∉ done → g.next x = .ok ys →
      (∀ y ∈ ys, y ∈ done) → Finished g (done ++ [x])

namespace Finished

variable {done : List α} {x y : α}

theorem nodup (h : g.Finished done) : done.Nodup := by
  induction h with
  | nil => exact List.nodup_nil
  | snoc _ hx _ _ ih =>
    rw [List.nodup_append]
    refine ⟨ih, by simp, fun a ha b hb hab => hx ?_⟩
    rw [List.mem_singleton] at hb
    rw [← hb, ← hab]
    exact ha

theorem next_eq_ok (h : g.Finished done) (hx : x ∈ done) :
    ∃ ys, g.next x = .ok ys ∧ ∀ y ∈ ys, y ∈ done := by
  induction h with
  | nil => cases hx
  | snoc _ _ hnext hys ih =>
    rcases List.mem_append.1 hx with hx | hx
    · obtain ⟨zs, hz, hzs⟩ := ih hx
      exact ⟨zs, hz, fun y hy => List.mem_append_left _ (hzs y hy)⟩
    · rw [List.mem_singleton.1 hx]
      exact ⟨_, hnext, fun y hy => List.mem_append_left _ (hys y hy)⟩

theorem mem_of_leads (h : g.Finished done) (hx : x ∈ done) (hxy : g.Leads x y) : y ∈ done := by
  obtain ⟨ys, hnext, hys⟩ := h.next_eq_ok hx
  obtain ⟨zs, hnext', hy⟩ := hxy
  rw [hnext] at hnext'
  rw [← Except.ok.inj hnext'] at hy
  exact hys y hy

theorem mem_of_reaches (h : g.Finished done) (hx : x ∈ done) (hxy : g.Reaches x y) : y ∈ done := by
  induction hxy with
  | refl => exact hx
  | tail _ hyz ih => exact h.mem_of_leads ih hyz

theorem mem_before (h : g.Finished done) {before after : List α}
    (hs : done = before ++ x :: after) (hxy : g.Leads x y) : y ∈ before := by
  induction h generalizing after with
  | nil => simp at hs
  | @snoc done ys z hd hz hnext hys ih =>
    rcases List.eq_nil_or_concat after with rfl | ⟨after, w, rfl⟩
    · obtain ⟨rfl, hzx⟩ := List.append_inj' hs rfl
      rw [List.singleton_inj] at hzx
      obtain ⟨zs, hzs, hy⟩ := hxy
      rw [← hzx, hnext] at hzs
      rw [← Except.ok.inj hzs] at hy
      exact hys y hy
    · have hs' : done ++ [z] = (before ++ x :: after) ++ [w] := by rw [hs]; simp
      exact ih (List.append_inj' hs' rfl).1

theorem not_onCircle (h : g.Finished done) (hx : x ∈ done) : ¬ g.OnCircle x := by
  induction h with
  | nil => cases hx
  | @snoc done ys z hd hz hnext hys ih =>
    rcases List.mem_append.1 hx with hx | hx
    · exact ih hx
    · -- The first step away from the last node stays among those before it, and so do all others.
      rw [List.mem_singleton.1 hx]
      intro hcirc
      obtain ⟨w, ⟨zs, hzs, hw⟩, hwz⟩ := TransGen.head'_iff.1 hcirc
      rw [hnext] at hzs
      rw [← Except.ok.inj hzs] at hw
      exact hz (hd.mem_of_reaches (hys w hw) hwz)

/-- What holds of a node whenever it holds of all nodes it leads to holds of finished nodes. -/
theorem induct {P : α → Prop} (h : g.Finished done)
    (step : ∀ x ys, ¬ g.OnCircle x → g.next x = .ok ys → (∀ y ∈ ys, P y) → P x) :
    ∀ x ∈ done, P x := by
  induction h with
  | nil => intro x hx; cases hx
  | snoc hd hx hnext hys ih =>
    intro y hy
    rcases List.mem_append.1 hy with hy | hy
    · exact ih y hy
    · have hfree := (hd.snoc hx hnext hys).not_onCircle (List.mem_append_right _ hy)
      rw [List.mem_singleton.1 hy] at hfree ⊢
      exact step _ _ hfree hnext fun z hz => ih z (hys z hz)

end Finished

/-! ## Progress of a walk -/

variable {path done : List α} {x : α}

/-- What a walk from `xs` makes of the finished nodes. Nodes on the path are not finished on the
way, so that the node in which the walk stands can be put behind all others. -/
structure Advance (g : Graph α ε) (path done xs done' : List α) : Prop where
  finished : g.Finished done'
  grows : done <+: done'
  fresh : ∀ y ∈ done', y ∈ done ∨ y ∉ path ∧ ∃ x ∈ xs, g.Reaches x y
  starts : ∀ x ∈ xs, x ∈ done'

theorem Advance.refl (h : g.Finished done) (xs : List α) (hxs : ∀ x ∈ xs, x ∈ done) :
    g.Advance path done xs done :=
  ⟨h, List.prefix_rfl, fun _ hy => .inl hy, hxs⟩

theorem Advance.trans {xs d d' : List α} (h : g.Advance path done [x] d)
    (h' : g.Advance path d xs d') : g.Advance path done (x :: xs) d' where
  finished := h'.finished
  grows := h.grows.trans h'.grows
  fresh y hy := by
    rcases h'.fresh y hy with hy | ⟨hp, z, hz, hzy⟩
    · rcases h.fresh y hy with hy | ⟨hp, z, hz, hzy⟩
      · exact .inl hy
      · exact .inr ⟨hp, z, by simp at hz; simp [hz], hzy⟩
    · exact .inr ⟨hp, z, List.mem_cons_of_mem _ hz, hzy⟩
  starts y hy := by
    rcases List.mem_cons.1 hy with rfl | hy
    · exact h'.grows.subset (h.starts _ List.mem_cons_self)
    · exact h'.starts y hy

theorem Advance.close {ys d : List α} (h : g.Advance (x :: path) done ys d) (hd : x ∉ done)
    (hp : x ∉ path) (hn : g.next x = .ok ys) : g.Advance path done [x] (d ++ [x]) where
  finished := by
    refine h.finished.snoc (fun hx => ?_) hn h.starts
    rcases h.fresh x hx with hx | ⟨hx, -⟩
    · exact hd hx
    · exact hx List.mem_cons_self
  grows := h.grows.trans (List.prefix_append d [x])
  fresh y hy := by
    rcases List.mem_append.1 hy with hy | hy
    · rcases h.fresh y hy with hy | ⟨hyp, z, hz, hzy⟩
      · exact .inl hy
      · exact .inr ⟨fun hy => hyp (List.mem_cons_of_mem _ hy), x, List.mem_cons_self,
          ReflTransGen.head ⟨ys, hn, hz⟩ hzy⟩
    · rw [List.mem_singleton.1 hy]
      exact .inr ⟨hp, x, List.mem_cons_self, ReflTransGen.refl⟩
  starts y hy := by
    rw [List.mem_singleton.1 hy]
    exact List.mem_append_right _ List.mem_cons_self

/-! ## Failures of a walk -/

/-- Why a walk from `x` fails. The nodes of a circle are told from the node at which it was
closed, along the steps of the graph. -/
inductive Fault (g : Graph α ε) (x : α) : ε → Prop where
  | stuck {y : α} {e : ε} : g.Reaches x y → g.next y = .error e → Fault g x e
  | circle {y : α} {between : List α} : g.Reaches x y → (y :: between).Nodup →
      List.IsChain g.Leads (y :: between ++ [y]) → Fault g x (g.circle (y :: between ++ [y]))

theorem Fault.of_leads {y : α} {e : ε} (hxy : g.Leads x y) (h : g.Fault y e) : g.Fault x e := by
  cases h with
  | stuck hyz hn => exact .stuck (ReflTransGen.head hxy hyz) hn
  | circle hyz hnd hch => exact .circle (ReflTransGen.head hxy hyz) hnd hch

/-- The path of a walk that stands in `x`: each node is led to by the one behind it. -/
structure Trail (g : Graph α ε) (path : List α) (x : α) : Prop where
  nodup : path.Nodup
  chain : List.IsChain (fun a b => g.Leads b a) (x :: path)

theorem Trail.push {y : α} (h : g.Trail path x) (hx : x ∉ path) (hxy : g.Leads x y) :
    g.Trail (x :: path) y where
  nodup := List.nodup_cons.2 ⟨hx, h.nodup⟩
  chain := List.isChain_cons_cons.2 ⟨hxy, h.chain⟩

theorem onCircle_of_isChain {y : α} {between : List α}
    (h : List.IsChain g.Leads (y :: between ++ [y])) : g.OnCircle y := by
  cases between with
  | nil => exact TransGen.single (List.isChain_pair.1 h)
  | cons z between =>
    obtain ⟨hyz, hrest⟩ := List.isChain_cons_cons.1 h
    have hzy : ReflTransGen g.Leads z y :=
      List.relationReflTransGen_of_exists_isChain_cons _ hrest (by simp)
    exact TransGen.head' hyz hzy

/-! ## The walk -/

variable [DecidableEq α]

theorem visit_of_mem_done (h : x ∈ done) : g.visit path done x = .ok done := by
  rw [visit, if_pos h]

theorem visit_of_mem_path (hd : x ∉ done) (hp : x ∈ path) :
    g.visit path done x =
      .error (g.circle (x :: (path.takeWhile (· ≠ x)).reverse ++ [x])) := by
  rw [visit, if_neg hd, if_pos hp]

theorem visit_of_next_error (hd : x ∉ done) (hp : x ∉ path) {e : ε} (hn : g.next x = .error e) :
    g.visit path done x = .error e := by
  rw [visit, if_neg hd, if_neg hp, hn]

theorem visit_of_next_ok (hd : x ∉ done) (hp : x ∉ path) {ys : List α} (hn : g.next x = .ok ys)
    (hx : x ∈ g.nodes) :
    g.visit path done x = (g.visitAll (x :: path) done ys).map (· ++ [x]) := by
  rw [visit, if_neg hd, if_neg hp, hn]
  simp only [hx, if_true]
  cases g.visitAll (x :: path) done ys <;> rfl

theorem visit_of_not_mem_nodes (hd : x ∉ done) (hp : x ∉ path) {ys : List α}
    (hn : g.next x = .ok ys) (hx : x ∉ g.nodes) : g.visit path done x = .ok (done ++ [x]) := by
  rw [visit, if_neg hd, if_neg hp, hn]
  simp only [hx, if_false]

theorem visitAll_nil : g.visitAll path done [] = .ok done := by rw [visitAll]

theorem visitAll_cons (xs : List α) :
    g.visitAll path done (x :: xs) =
      (g.visit path done x).bind fun done => g.visitAll path done xs := by
  rw [visitAll]
  cases g.visit path done x <;> rfl

theorem visitAll_eq_ok : ∀ (path done xs : List α) {done' : List α}, g.Finished done →
    (∀ x ∈ xs, g.Covers x) → g.visitAll path done xs = .ok done' →
      g.Advance path done xs done' := by
  intro path done xs
  refine Graph.visitAll.induct g
    (fun path done x => ∀ {done'}, g.Finished done → g.Covers x →
      g.visit path done x = .ok done' → g.Advance path done [x] done')
    (fun path done xs => ∀ {done'}, g.Finished done → (∀ x ∈ xs, g.Covers x) →
      g.visitAll path done xs = .ok done' → g.Advance path done xs done')
    ?done ?circle ?stuck ?failed ?walked ?leaf ?nil ?headFailed ?cons path done xs
  case done =>
    intro path done x hx done' hf _ h
    rw [visit_of_mem_done hx] at h
    obtain rfl := Except.ok.inj h
    exact .refl hf _ fun y hy => List.mem_singleton.1 hy ▸ hx
  case circle =>
    intro path done x hd hp done' _ _ h
    rw [visit_of_mem_path hd hp] at h
    cases h
  case stuck =>
    intro path done x hd hp e hn done' _ _ h
    rw [visit_of_next_error hd hp hn] at h
    cases h
  case failed =>
    intro path done x hd hp ys hn hx e he _ done' _ _ h
    rw [visit_of_next_ok hd hp hn hx, he] at h
    cases h
  case walked =>
    intro path done x hd hp ys hn hx d hw ih done' hf hc h
    rw [visit_of_next_ok hd hp hn hx, hw] at h
    obtain rfl := Except.ok.inj h
    exact (ih hf (fun y hy => hc.leads ⟨ys, hn, hy⟩) hw).close hd hp hn
  case leaf =>
    intro path done x hd hp ys hn hx done' hf hc h
    rw [visit_of_not_mem_nodes hd hp hn hx] at h
    obtain rfl := Except.ok.inj h
    have hys : ∀ y ∈ ys, y ∈ done := fun y hy =>
      absurd (hc x y ReflTransGen.refl ⟨ys, hn, hy⟩) hx
    exact (Advance.refl hf ys hys).close hd hp hn
  case nil =>
    intro path done done' hf _ h
    rw [visitAll_nil] at h
    obtain rfl := Except.ok.inj h
    exact .refl hf _ (by simp)
  case headFailed =>
    intro path done x xs e he _ done' _ _ h
    rw [visitAll_cons, he] at h
    cases h
  case cons =>
    intro path done x xs d hv ih ih' done' hf hc h
    rw [visitAll_cons, hv] at h
    have hx := ih hf (hc x List.mem_cons_self) hv
    exact hx.trans (ih' hx.finished (fun y hy => hc y (List.mem_cons_of_mem _ hy)) h)

/-- The part of a path before a node of it. -/
theorem split_at_mem (h : x ∈ path) :
    x ∉ path.takeWhile (· ≠ x) ∧ ∃ rest, path = path.takeWhile (· ≠ x) ++ x :: rest := by
  induction path with
  | nil => cases h
  | cons y path ih =>
    by_cases hyx : y = x
    · subst hyx
      simp
    · obtain ⟨hmiss, rest, hrest⟩ := ih ((List.mem_cons.1 h).resolve_left (Ne.symm hyx))
      rw [List.takeWhile_cons_of_pos (by simpa using hyx)]
      refine ⟨?_, rest, by rw [List.cons_append, ← hrest]⟩
      rw [List.mem_cons, not_or]
      exact ⟨Ne.symm hyx, hmiss⟩

theorem Trail.fault (h : g.Trail path x) (hx : x ∈ path) :
    g.Fault x (g.circle (x :: (path.takeWhile (· ≠ x)).reverse ++ [x])) := by
  obtain ⟨hmiss, rest, hrest⟩ := split_at_mem hx
  have hnodup : (path.takeWhile (· ≠ x)).Nodup := (List.takeWhile_sublist _).nodup h.nodup
  refine .circle ReflTransGen.refl ?_ ?_
  · rw [List.nodup_cons, List.mem_reverse]
    exact ⟨hmiss, List.pairwise_reverse.2 (hnodup.imp Ne.symm)⟩
  · have hchain := h.chain
    rw [hrest, ← List.cons_append, List.append_cons] at hchain
    have hloop := (List.isChain_append.1 hchain).1
    have hrev : x :: (path.takeWhile (· ≠ x)).reverse ++ [x] =
        (x :: path.takeWhile (· ≠ x) ++ [x]).reverse := by simp
    rw [hrev, List.isChain_reverse]
    exact hloop

theorem visitAll_eq_error : ∀ (path done xs : List α) {e : ε}, (∀ x ∈ xs, g.Trail path x) →
    g.visitAll path done xs = .error e → ∃ x ∈ xs, g.Fault x e := by
  intro path done xs
  refine Graph.visitAll.induct g
    (fun path done x => ∀ {e}, g.Trail path x → g.visit path done x = .error e → g.Fault x e)
    (fun path done xs => ∀ {e}, (∀ x ∈ xs, g.Trail path x) →
      g.visitAll path done xs = .error e → ∃ x ∈ xs, g.Fault x e)
    ?done ?circle ?stuck ?failed ?walked ?leaf ?nil ?headFailed ?cons path done xs
  case done =>
    intro path done x hx e _ h
    rw [visit_of_mem_done hx] at h
    cases h
  case circle =>
    intro path done x hd hp e ht h
    rw [visit_of_mem_path hd hp] at h
    obtain rfl := Except.error.inj h
    exact ht.fault hp
  case stuck =>
    intro path done x hd hp e hn e' _ h
    rw [visit_of_next_error hd hp hn] at h
    obtain rfl := Except.error.inj h
    exact .stuck ReflTransGen.refl hn
  case failed =>
    intro path done x hd hp ys hn hx e he ih e' ht h
    rw [visit_of_next_ok hd hp hn hx, he] at h
    obtain rfl := Except.error.inj h
    obtain ⟨y, hy, hf⟩ := ih (fun y hy => ht.push hp ⟨ys, hn, hy⟩) he
    exact hf.of_leads ⟨ys, hn, hy⟩
  case walked =>
    intro path done x hd hp ys hn hx d hw _ e _ h
    rw [visit_of_next_ok hd hp hn hx, hw] at h
    cases h
  case leaf =>
    intro path done x hd hp ys hn hx e _ h
    rw [visit_of_not_mem_nodes hd hp hn hx] at h
    cases h
  case nil =>
    intro path done e _ h
    rw [visitAll_nil] at h
    cases h
  case headFailed =>
    intro path done x xs e he ih e' ht h
    rw [visitAll_cons, he] at h
    obtain rfl := Except.error.inj h
    exact ⟨x, List.mem_cons_self, ih (ht x List.mem_cons_self) he⟩
  case cons =>
    intro path done x xs d hv _ ih e ht h
    rw [visitAll_cons, hv] at h
    obtain ⟨y, hy, hf⟩ := ih (fun y hy => ht y (List.mem_cons_of_mem _ hy)) h
    exact ⟨y, List.mem_cons_of_mem _ hy, hf⟩

theorem visitAll_append (xs ys : List α) :
    g.visitAll path done (xs ++ ys) =
      (g.visitAll path done xs).bind fun done => g.visitAll path done ys := by
  induction xs generalizing done with
  | nil =>
    rw [visitAll_nil]
    rfl
  | cons x xs ih =>
    rw [List.cons_append, visitAll_cons, visitAll_cons]
    cases g.visit path done x with
    | error e => rfl
    | ok done' => exact ih

/-- Only whether a node is listed matters to a walk, not where. -/
theorem visitAll_congr {g' : Graph α ε} (hnodes : ∀ x, x ∈ g.nodes ↔ x ∈ g'.nodes)
    (hnext : g.next = g'.next) (hcircle : g.circle = g'.circle) :
    ∀ path done xs : List α, g.visitAll path done xs = g'.visitAll path done xs := by
  intro path done xs
  refine Graph.visitAll.induct g
    (fun path done x => g.visit path done x = g'.visit path done x)
    (fun path done xs => g.visitAll path done xs = g'.visitAll path done xs)
    ?done ?circle ?stuck ?failed ?walked ?leaf ?nil ?headFailed ?cons path done xs
  case done =>
    intro path done x hx
    rw [visit_of_mem_done hx, visit_of_mem_done hx]
  case circle =>
    intro path done x hd hp
    rw [visit_of_mem_path hd hp, visit_of_mem_path hd hp, hcircle]
  case stuck =>
    intro path done x hd hp e hn
    rw [visit_of_next_error hd hp hn, visit_of_next_error hd hp (hnext ▸ hn)]
  case failed =>
    intro path done x hd hp ys hn hx e _ ih
    rw [visit_of_next_ok hd hp hn hx, visit_of_next_ok hd hp (hnext ▸ hn) ((hnodes x).1 hx), ih]
  case walked =>
    intro path done x hd hp ys hn hx done' _ ih
    rw [visit_of_next_ok hd hp hn hx, visit_of_next_ok hd hp (hnext ▸ hn) ((hnodes x).1 hx), ih]
  case leaf =>
    intro path done x hd hp ys hn hx
    rw [visit_of_not_mem_nodes hd hp hn hx,
      visit_of_not_mem_nodes hd hp (hnext ▸ hn) (mt (hnodes x).2 hx)]
  case nil =>
    intro path done
    rw [visitAll_nil, visitAll_nil]
  case headFailed =>
    intro path done x xs e he ih
    rw [visitAll_cons, visitAll_cons, ← ih, he]
    rfl
  case cons =>
    intro path done x xs done' hv ih ih'
    rw [visitAll_cons, visitAll_cons, ← ih, hv]
    exact ih'

/-! ## The nodes reached from several starts -/

variable {starts order : List α}

theorem finishOrder_eq_ok (hc : ∀ x ∈ starts, g.Covers x) (h : g.finishOrder starts = .ok order) :
    g.Finished order ∧ ∀ y, y ∈ order ↔ ∃ x ∈ starts, g.Reaches x y := by
  have hw := visitAll_eq_ok [] [] starts .nil hc h
  refine ⟨hw.finished, fun y => ⟨fun hy => ?_, ?_⟩⟩
  · rcases hw.fresh y hy with hy | ⟨-, hreach⟩
    · cases hy
    · exact hreach
  · rintro ⟨x, hx, hxy⟩
    exact hw.finished.mem_of_reaches (hw.starts x hx) hxy

/-- A walk from more starts begins with the walk from the first ones. -/
theorem finishOrder_append_eq_ok {more : List α} (hc : ∀ x ∈ starts ++ more, g.Covers x)
    (h : g.finishOrder (starts ++ more) = .ok order) :
    ∃ first, g.finishOrder starts = .ok first ∧ first <+: order := by
  obtain ⟨hcs, hcm⟩ := List.forall_mem_append.1 hc
  rw [finishOrder, visitAll_append] at h
  cases hf : g.visitAll [] [] starts with
  | error e =>
    rw [hf] at h
    cases h
  | ok first =>
    rw [hf] at h
    have hfirst := visitAll_eq_ok [] [] starts .nil hcs hf
    exact ⟨first, hf, (visitAll_eq_ok [] first more hfirst.finished hcm h).grows⟩

theorem finishOrder_eq_error {e : ε} (h : g.finishOrder starts = .error e) :
    ∃ x ∈ starts, g.Fault x e :=
  visitAll_eq_error [] [] starts (fun x _ => ⟨List.nodup_nil, List.isChain_singleton x⟩) h

theorem finishOrder_ok_iff (hc : ∀ x ∈ starts, g.Covers x) :
    (∃ order, g.finishOrder starts = .ok order) ↔
      ∀ x ∈ starts, ∀ y, g.Reaches x y → (∃ ys, g.next y = .ok ys) ∧ ¬ g.OnCircle y := by
  constructor
  · rintro ⟨order, h⟩ x hx y hxy
    obtain ⟨hf, hmem⟩ := finishOrder_eq_ok hc h
    have hy : y ∈ order := (hmem y).2 ⟨x, hx, hxy⟩
    obtain ⟨ys, hn, -⟩ := hf.next_eq_ok hy
    exact ⟨⟨ys, hn⟩, hf.not_onCircle hy⟩
  · intro hfree
    cases h : g.finishOrder starts with
    | ok order => exact ⟨order, rfl⟩
    | error e =>
      obtain ⟨x, hx, hf⟩ := finishOrder_eq_error h
      cases hf with
      | stuck hxy hn =>
        obtain ⟨ys, hys⟩ := (hfree x hx _ hxy).1
        rw [hn] at hys
        cases hys
      | circle hxy _ hch => exact absurd (onCircle_of_isChain hch) (hfree x hx _ hxy).2

end PackChoice.Graph

namespace PackChoice

open Relation (TransGen)

/-! ## Spreading -/

variable {α : Type} [DecidableEq α] {nodes found queue : List α} {next : α → List α} {x y : α}

/-- One step of spreading, which stays among the nodes. -/
def Spreads (nodes : List α) (next : α → List α) (x y : α) : Prop := y ∈ nodes ∧ y ∈ next x

theorem mem_of_mem_spread (hy : y ∈ spread nodes next found queue) :
    y ∈ found ∨ ∃ x ∈ queue, TransGen (Spreads nodes next) x y := by
  fun_induction spread nodes next found queue with
  | case1 found => exact .inl hy
  | case2 found x queue hfresh ih =>
    rcases ih hy with hy | ⟨z, hz, hzy⟩
    · exact .inl hy
    · exact .inr ⟨z, List.mem_cons_of_mem _ hz, hzy⟩
  | case3 found x queue hfresh ih =>
    have hstep : ∀ z ∈ freshNodes nodes (next x) found, Spreads nodes next x z := by
      intro z hz
      obtain ⟨hn, hx, -⟩ := mem_freshNodes.1 hz
      exact ⟨hn, hx⟩
    rcases ih hy with hy | ⟨z, hz, hzy⟩
    · rcases List.mem_append.1 hy with hy | hy
      · exact .inl hy
      · exact .inr ⟨x, List.mem_cons_self, TransGen.single (hstep y hy)⟩
    · rcases List.mem_append.1 hz with hz | hz
      · exact .inr ⟨z, List.mem_cons_of_mem _ hz, hzy⟩
      · exact .inr ⟨x, List.mem_cons_self, TransGen.head (hstep z hz) hzy⟩

/-- Whatever has been met and is no longer queued has been spread: what it leads to is found. -/
def Spread (nodes : List α) (next : α → List α) (start : α) (found queue : List α) : Prop :=
  ∀ x, x = start ∨ x ∈ found → x ∉ queue → ∀ y, Spreads nodes next x y → y ∈ found

namespace Spread

variable {start : α}

theorem stale (h : Spread nodes next start found (x :: queue))
    (hfresh : freshNodes nodes (next x) found = []) : Spread nodes next start found queue := by
  intro z hz hzq y hzy
  by_cases he : z = x
  · by_contra hy
    have hmem : y ∈ freshNodes nodes (next x) found :=
      mem_freshNodes.2 ⟨hzy.1, he ▸ hzy.2, hy⟩
    rw [hfresh] at hmem
    exact List.not_mem_nil hmem
  · exact h z hz (fun hm => (List.mem_cons.1 hm).elim he hzq) y hzy

theorem fresh (h : Spread nodes next start found (x :: queue)) :
    Spread nodes next start (found ++ freshNodes nodes (next x) found)
      (queue ++ freshNodes nodes (next x) found) := by
  intro z hz hzq y hzy
  obtain ⟨hzq, hzf⟩ := not_or.1 (mt List.mem_append.2 hzq)
  by_cases he : z = x
  · by_cases hy : y ∈ found
    · exact List.mem_append_left _ hy
    · exact List.mem_append_right _ (mem_freshNodes.2 ⟨hzy.1, he ▸ hzy.2, hy⟩)
  · have hz : z = start ∨ z ∈ found := by
      refine hz.imp_right fun hm => ?_
      exact (List.mem_append.1 hm).resolve_right hzf
    have hzc : z ∉ x :: queue := fun hm => (List.mem_cons.1 hm).elim he hzq
    exact List.mem_append_left _ (h z hz hzc y hzy)

/-- At the end nothing is queued. -/
theorem finish (h : Spread nodes next start found queue) :
    Spread nodes next start (spread nodes next found queue) [] := by
  fun_induction spread nodes next found queue with
  | case1 found => exact h
  | case2 found x queue hfresh ih => exact ih (h.stale hfresh)
  | case3 found x queue hfresh ih => exact ih h.fresh

end Spread

theorem mem_spread_iff : y ∈ spread nodes next [] [x] ↔ TransGen (Spreads nodes next) x y := by
  constructor
  · intro hy
    rcases mem_of_mem_spread hy with hy | ⟨z, hz, hzy⟩
    · exact absurd hy List.not_mem_nil
    · rwa [List.mem_singleton.1 hz] at hzy
  · intro h
    have hbegin : Spread nodes next x [] [x] := by
      intro z hz hzq
      rcases hz with rfl | hz
      · exact absurd (List.mem_singleton_self z) hzq
      · exact absurd hz List.not_mem_nil
    have hend := hbegin.finish
    induction h with
    | single hxy => exact hend x (.inl rfl) List.not_mem_nil _ hxy
    | tail _ hyz ih => exact hend _ (.inr ih) List.not_mem_nil _ hyz

end PackChoice
