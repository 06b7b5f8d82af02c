import Mathlib.Data.List.Permutation
import PackChoice.Context
import PackChoice.Proofs.Catalog.Lookup
import PackChoice.Proofs.Rules.Validated

/-!
What making a context settles. The rules of a context know each pack's own expression under the
pack's key (`gatePacks_get?`), and they have been validated (`ofDefinition_eq_ok`). Hence it can
always be told which packs are on offer (`availablePacks_ok`), and a pack's own expression decides
for it (`offers_eq_true_iff`).
-/

namespace PackChoice

namespace Rules

variable {r r' : Rules}

theorem registerAll_packConditions {conditions : List (String × Condition)}
    (h : r.registerAll conditions = .ok r') : r'.packConditions = r.packConditions := by
  refine foldlM_keeps (P := fun s => s.packConditions = r.packConditions) ?_ rfl h
  intro entry _ a a' ha ho
  rw [register] at ho
  split at ho
  · split at ho
    · cases ho
    · obtain rfl := Except.ok.inj ho
      exact ha
  · cases ho

theorem addRequirements_packConditions {requirements : List Requirement}
    (h : r.addRequirements requirements = .ok r') : r'.packConditions = r.packConditions := by
  refine foldlM_keeps (P := fun s => s.packConditions = r.packConditions) ?_ rfl h
  intro requirement _ a a' ha ho
  obtain ⟨expression, -, ho⟩ := bind_eq_ok_iff.1 ho
  rw [← pure_eq_ok_iff.1 ho]
  exact ha

end Rules

namespace Context

open Rules (evalExpression_ok_of_validate)

variable {rules : Rules} {packs : List Pack} {p : Pack}

/-! ## The expressions of packs -/

theorem gatePacks_get?_of_not_mem {key : String} (h : key ∉ packs.map Pack.key) :
    (gatePacks rules packs).packConditions.get? key = rules.packConditions.get? key := by
  induction packs generalizing rules with
  | nil => rfl
  | cons q packs ih =>
    obtain ⟨hq, hrest⟩ := not_or.1 (mt List.mem_cons.2 h)
    rw [gatePacks, List.foldl_cons, ← gatePacks, ih hrest]
    cases q.condition with
    | none => rfl
    | some expression => exact (NameMap.get?_insert _ _ _ _).trans (if_neg hq)

theorem gatePacks_get? (hk : (packs.map Pack.key).Nodup) (hp : p ∈ packs)
    (hr : rules.packConditions.get? p.key = none) :
    (gatePacks rules packs).packConditions.get? p.key = p.condition := by
  induction packs generalizing rules with
  | nil => cases hp
  | cons q packs ih =>
    obtain ⟨hq, hk⟩ := List.nodup_cons.1 hk
    rw [gatePacks, List.foldl_cons, ← gatePacks]
    rcases List.mem_cons.1 hp with rfl | hp
    · rw [gatePacks_get?_of_not_mem hq]
      cases p.condition with
      | none => exact hr
      | some expression => exact (NameMap.get?_insert _ _ _ _).trans (if_pos rfl)
    · have hne : p.key ≠ q.key := fun he => hq (he ▸ List.mem_map_of_mem hp)
      refine ih hk hp ?_
      cases q.condition with
      | none => exact hr
      | some expression => exact ((NameMap.get?_insert _ _ _ _).trans (if_neg hne)).trans hr

/-! ## Loading a definition -/

/-- What has been settled about a context that was made from a definition. -/
structure Loaded (c : Context) : Prop where
  valid : c.rules.validate = .ok ()
  gates : ∀ p ∈ c.catalog.packs, c.rules.packConditions.get? p.key = p.condition

variable {c : Context} {definition : Definition} {options : Options}

theorem ofDefinition_eq_ok (h : ofDefinition definition options = .ok c) :
    c.Loaded ∧ c.catalog.packs = definition.packs := by
  obtain ⟨registered, hreg, h⟩ := bind_eq_ok_iff.1 h
  obtain ⟨checked, hcheck, h⟩ := bind_eq_ok_iff.1 h
  obtain ⟨catalog, hcat, h⟩ := bind_eq_ok_iff.1 h
  obtain ⟨⟨⟩, hvalid, h⟩ := bind_eq_ok_iff.1 h
  rw [← pure_eq_ok_iff.1 h]
  refine ⟨⟨hvalid, fun p hp => gatePacks_get? catalog.keys_nodup hp ?_⟩,
    Catalog.packs_of_ofPacks hcat⟩
  rw [Rules.addRequirements_packConditions hcheck, Rules.registerAll_packConditions hreg]
  exact NameMap.get?_empty p.key

/-! ## Packs on offer -/

namespace Loaded

theorem mem_expressions (h : c.Loaded) (hp : p ∈ c.catalog.packs) {expression : Expression}
    (he : p.condition = some expression) : expression ∈ c.rules.expressions := by
  have hget := h.gates p hp
  rw [he, NameMap.get?_eq_some_iff] at hget
  exact List.mem_append_left _ (List.mem_map.2 ⟨_, hget, rfl⟩)

theorem evalExpression_ok (h : c.Loaded) (vars : Variables) (hp : p ∈ c.catalog.packs)
    {expression : Expression} (he : p.condition = some expression) :
    ∃ b, c.rules.evalExpression vars expression = .ok b :=
  evalExpression_ok_of_validate h.valid vars expression (h.mem_expressions hp he)

theorem canInstall_ok (h : c.Loaded) (vars : Variables) (hp : p ∈ c.catalog.packs) :
    ∃ b, c.rules.canInstall vars p.key = .ok b := by
  rw [Rules.canInstall, h.gates p hp]
  cases he : p.condition with
  | none => exact ⟨true, rfl⟩
  | some expression => exact h.evalExpression_ok vars hp he

theorem offers_ok (h : c.Loaded) (vars : Variables) (hp : p ∈ c.catalog.packs) :
    ∃ b, c.offers vars p = .ok b := by
  rw [offers]
  split
  · exact ⟨true, rfl⟩
  · exact h.canInstall_ok vars hp

theorem offers_eq_true_iff (h : c.Loaded) (vars : Variables) (hp : p ∈ c.catalog.packs) :
    c.offers vars p = .ok true ↔
      p.required = true ∨ p.condition = none ∨
        ∃ expression, p.condition = some expression ∧
          c.rules.evalExpression vars expression = .ok true := by
  rw [offers]
  split
  · next hreq => simp [hreq]
  · next hreq =>
    rw [Rules.canInstall, h.gates p hp]
    cases p.condition <;> simp [hreq]

theorem offers_eq_false_iff (h : c.Loaded) (vars : Variables) (hp : p ∈ c.catalog.packs) :
    c.offers vars p = .ok false ↔
      p.required ≠ true ∧ ∃ expression, p.condition = some expression ∧
        c.rules.evalExpression vars expression = .ok false := by
  rw [offers]
  split
  · next hreq => simp [hreq]
  · next hreq =>
    rw [Rules.canInstall, h.gates p hp]
    cases p.condition <;> simp [hreq]

theorem availablePacks_ok (h : c.Loaded) (vars : Variables) :
    ∃ packs, c.availablePacks vars = .ok packs :=
  sift_ok fun _ hp => h.offers_ok vars hp

end Loaded

theorem availablePacks_eq_ok {vars : Variables} (h : c.availablePacks vars = .ok packs) :
    packs.Sublist c.catalog.packs ∧
      ∀ p, p ∈ packs ↔ p ∈ c.catalog.packs ∧ c.offers vars p = .ok true :=
  sift_eq_ok h

theorem offers_of_required (vars : Variables) (h : p.required = true) :
    c.offers vars p = .ok true := by
  rw [offers, if_pos h]

end Context

/-! ## Two small installers -/

/-- An installer of four packs: `core` always comes along, `app` needs `lib`, and `man` is on offer
to readers of English. -/
def Definition.sample : Definition where
  packs := [
    { name := "core", required := true },
    { name := "app", dependencies := ["lib"], installGroups := .ofList ["user"] },
    { name := "lib", preselected := false },
    { name := "man", condition := some (.term "english" false) }]
  conditions := .ofList [("english", .variable "LANG" "en")]

theorem Definition.sample_loads :
    (Context.ofDefinition Definition.sample {}).toOption.isSome = true := by cbv

/-- What is known about the installer of `Definition.sample`. -/
def Context.sample : Context :=
  (Context.ofDefinition Definition.sample {}).toOption.get Definition.sample_loads

theorem Context.ofDefinition_sample :
    Context.ofDefinition Definition.sample {} = .ok Context.sample :=
  eq_ok_get Definition.sample_loads

/-- An installer of three packs: `paint` needs `red`, which is on offer only in a studio and
excludes `blue`. -/
def Definition.palette : Definition where
  packs := [
    { name := "paint", preselected := false, dependencies := ["red"],
      installGroups := .ofList ["artist"] },
    { name := "red", preselected := false, excludeGroup := some "colour",
      condition := some (.term "studio" false) },
    { name := "blue", preselected := false, excludeGroup := some "colour" }]
  conditions := .ofList [("studio", .variable "STUDIO" "yes")]

theorem Definition.palette_loads :
    (Context.ofDefinition Definition.palette {}).toOption.isSome = true := by cbv

/-- What is known about the installer of `Definition.palette`. -/
def Context.palette : Context :=
  (Context.ofDefinition Definition.palette {}).toOption.get Definition.palette_loads

theorem Context.ofDefinition_palette :
    Context.ofDefinition Definition.palette {} = .ok Context.palette :=
  eq_ok_get Definition.palette_loads

end PackChoice
