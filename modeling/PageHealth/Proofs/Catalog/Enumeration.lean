import Mathlib.Data.List.Nodup
import PageHealth.Proofs.Catalog.Places
import PageHealth.Proofs.Catalog.PlaceText
import PageHealth.Proofs.Text.Split

namespace PageHealth

section Order

def Slot.Before : Slot → Slot → Prop
  | .check i, .check j => i < j
  | .check _, _ => True
  | .pass, .warning => True
  | _, _ => False

def RulePlace.Before (p q : RulePlace) : Prop :=
  p.category < q.category ∨ p.category = q.category ∧ p.rule < q.rule

def ConditionPlace.Before (p q : ConditionPlace) : Prop :=
  p.rule.Before q.rule ∨ p.rule = q.rule ∧ p.slot.Before q.slot

theorem Slot.Before.ne {p q : Slot} (before : p.Before q) : p ≠ q := by
  rintro rfl
  cases p with
  | check i => exact Nat.lt_irrefl i before
  | pass => exact before
  | warning => exact before

theorem RulePlace.Before.ne {p q : RulePlace} (before : p.Before q) : p ≠ q := by
  rintro rfl
  rcases before with category | ⟨_, rule⟩
  · exact Nat.lt_irrefl _ category
  · exact Nat.lt_irrefl _ rule

theorem ConditionPlace.Before.ne {p q : ConditionPlace} (before : p.Before q) : p ≠ q := by
  rintro rfl
  rcases before with rule | ⟨_, slot⟩
  · exact rule.ne rfl
  · exact slot.ne rfl

variable {α : Type}

theorem pairwise_zipIdx (items : List α) : items.zipIdx.Pairwise fun p q => p.2 < q.2 := by
  rw [← List.pairwise_map (f := Prod.snd) (R := (· < ·)), List.zipIdx_map_snd]
  exact List.pairwise_lt_range'

theorem Thresholds.pairwise_conditions (thresholds : Thresholds α) :
    thresholds.conditions.Pairwise fun p q => p.1.Before q.1 := by
  obtain ⟨pass, warning⟩ := thresholds
  cases warning with
  | none => exact List.pairwise_singleton _ _
  | some warning => exact List.pairwise_pair.mpr trivial

theorem Thresholds.before_of_mem_conditions {thresholds : Thresholds α} {placed : Slot × Condition α}
    (listed : placed ∈ thresholds.conditions) (k : Nat) : (Slot.check k).Before placed.1 := by
  rcases List.mem_cons.mp listed with rfl | later
  · trivial
  · obtain ⟨warning, _, rfl⟩ := List.mem_map.mp later
    trivial

theorem Rule.pairwise_conditions (rule : Rule α) :
    rule.conditions.Pairwise fun p q => p.1.Before q.1 := by
  obtain ⟨id, severity, message, recommendation, checks, thresholds⟩ := rule
  have ordered : ((checks.getD []).zipIdx.map fun entry => (Slot.check entry.2, entry.1)).Pairwise
      fun p q => p.1.Before q.1 := List.pairwise_map.mpr (pairwise_zipIdx _)
  cases thresholds with
  | none => simpa [conditions] using ordered
  | some thresholds =>
    refine List.pairwise_append.mpr ⟨ordered, thresholds.pairwise_conditions, ?_⟩
    intro check among threshold within
    obtain ⟨⟨_, k⟩, _, rfl⟩ := List.mem_map.mp among
    exact Thresholds.before_of_mem_conditions within k

/-- Lists in a row are in order when the things that they belong to are, and each of them is. -/
theorem pairwise_nested {β γ δ : Type} {R : β → β → Prop} {S : γ → γ → Prop} {T : δ → δ → Prop}
    {outer : List β} {inner : β → List γ} {pair : β → γ → δ} (outside : outer.Pairwise R)
    (inside : ∀ b, (inner b).Pairwise S) (apart : ∀ a b x y, R a b → T (pair a x) (pair b y))
    (within : ∀ b x y, S x y → T (pair b x) (pair b y)) :
    (outer.flatMap fun b => (inner b).map (pair b)).Pairwise T := by
  rw [List.pairwise_flatMap]
  constructor
  · intro b _
    exact List.pairwise_map.mpr ((inside b).imp (within b _ _))
  · refine outside.imp fun later p first q second => ?_
    obtain ⟨x, _, rfl⟩ := List.mem_map.mp first
    obtain ⟨y, _, rfl⟩ := List.mem_map.mp second
    exact apart _ _ x y later

theorem Catalog.pairwise_placedRules (catalog : Catalog α) :
    catalog.placedRules.Pairwise fun p q => p.1.Before q.1 :=
  pairwise_nested (pairwise_zipIdx catalog.categories) (fun entry => pairwise_zipIdx entry.1.rules)
    (fun _ _ _ _ later => .inl later) (fun _ _ _ later => .inr ⟨rfl, later⟩)

theorem Catalog.pairwise_conditions (catalog : Catalog α) :
    catalog.conditions.Pairwise fun p q => p.1.Before q.1 :=
  pairwise_nested catalog.pairwise_placedRules (fun entry => entry.2.pairwise_conditions)
    (fun _ _ _ _ later => .inl later) (fun _ _ _ later => .inr ⟨rfl, later⟩)

end Order

section Following

variable {α : Type}

inductive CatalogPart (α : Type) where
  | catalog (catalog : Catalog α)
  | category (category : Category α)
  | rule (rule : Rule α)
  | thresholds (thresholds : Thresholds α)
  | condition (condition : Condition α)

namespace CatalogPart

def member? : CatalogPart α → String → Option (CatalogPart α)
  | .rule r, "thresholds" => r.thresholds.map .thresholds
  | .thresholds t, "pass" => some (.condition t.pass)
  | .thresholds t, "warning" => t.warning.map .condition
  | _, _ => none

def element? : CatalogPart α → String → Nat → Option (CatalogPart α)
  | .catalog c, "categories", i => c.categories[i]?.map .category
  | .category c, "rules", j => c.rules[j]?.map .rule
  | .rule r, "checks", k => (r.checks.bind fun checks => checks[k]?).map .condition
  | _, _, _ => none

def step? (part : CatalogPart α) (segment : String) : Option (CatalogPart α) :=
  match splitAt '[' segment.toList with
  | [word] => part.member? (String.ofList word)
  | [word, behind] =>
    match takeDigits behind with
    | (c :: digits, [']']) => part.element? (String.ofList word) (digitsValue (c :: digits))
    | _ => none
  | _ => none

def follow? (part : CatalogPart α) (location : String) : Option (CatalogPart α) :=
  (pathSegments location).foldlM step? part

theorem step?_word {word : String} (plain : '[' ∉ word.toList) (part : CatalogPart α) :
    part.step? word = part.member? word := by
  rw [step?, splitAt_of_notMem plain]
  simp only [String.ofList_toList]

theorem step?_elementText {word : String} (plain : '[' ∉ word.toList) (part : CatalogPart α) (i : Nat) :
    part.step? (elementText word i) = part.element? word i := by
  have digits : '[' ∉ Nat.toDigits 10 i ++ [']'] := by
    simp [notMem_toDigits (c := '[') rfl i]
  have cut : splitAt '[' (elementText word i).toList = [word.toList, Nat.toDigits 10 i ++ [']']] := by
    have chars : (elementText word i).toList = word.toList ++ '[' :: (Nat.toDigits 10 i ++ [']']) := by
      simp [elementText, digitsText]
    rw [chars, splitAt_append_cons, splitAt_of_notMem plain, splitAt_of_notMem digits]
    rfl
  have stop : ∀ c ∈ [']'].head?, isDigit c = false := by
    rintro _ ⟨⟩
    rfl
  have taken : takeDigits (Nat.toDigits 10 i ++ [']']) = (Nat.toDigits 10 i, [']']) :=
    takeDigits_append (fun c => isDigit_of_mem_toDigits) stop
  obtain ⟨c, rest, first⟩ := List.exists_cons_of_ne_nil (@Nat.toDigits_ne_nil i 10)
  rw [first] at taken
  simp only [step?, cut, first, taken, String.ofList_toList]
  rw [← first, digitsValue_toDigits]

theorem follow?_append (part : CatalogPart α) (before after : String) :
    part.follow? (before ++ "." ++ after) = (part.follow? before).bind fun next => next.follow? after := by
  unfold follow?
  rw [pathSegments_append, List.foldlM_append]
  rfl

theorem follow?_of_notMem {segment : String} (single : '.' ∉ segment.toList) (part : CatalogPart α) :
    part.follow? segment = part.step? segment := by
  rw [follow?, pathSegments_of_notMem single, List.foldlM_cons]
  cases part.step? segment <;> rfl

theorem follow?_elementText {word : String} (point : '.' ∉ word.toList) (bracket : '[' ∉ word.toList)
    (part : CatalogPart α) (i : Nat) : part.follow? (elementText word i) = part.element? word i := by
  have single : '.' ∉ (elementText word i).toList := by
    simp [elementText, digitsText, point, notMem_toDigits (c := '.') rfl i]
  rw [follow?_of_notMem single, step?_elementText bracket]

theorem follow?_word {word : String} (point : '.' ∉ word.toList) (bracket : '[' ∉ word.toList)
    (part : CatalogPart α) : part.follow? word = part.member? word := by
  rw [follow?_of_notMem point, step?_word bracket]

theorem follow?_rulePlace (catalog : Catalog α) (place : RulePlace) :
    (CatalogPart.catalog catalog).follow? place.text = (catalog.ruleAt? place).map .rule := by
  rw [RulePlace.text, follow?_append, categoryText, follow?_elementText (by decide) (by decide)]
  unfold Catalog.ruleAt?
  simp only [element?]
  cases catalog.categories[place.category]? with
  | none => rfl
  | some category => exact follow?_elementText (by decide) (by decide) _ _

theorem follow?_slot (r : Rule α) (slot : Slot) :
    (CatalogPart.rule r).follow? slot.text = (r.conditionAt? slot).map .condition := by
  have below {word : String} (point : '.' ∉ word.toList) (bracket : '[' ∉ word.toList) :
      (CatalogPart.rule r).follow? ("thresholds" ++ "." ++ word) =
        (r.thresholds.map CatalogPart.thresholds).bind fun part => part.member? word := by
    rw [follow?_append, follow?_word (by decide) (by decide)]
    exact congrArg _ (funext fun part => follow?_word point bracket part)
  cases slot with
  | check k => exact follow?_elementText (by decide) (by decide) _ k
  | pass =>
    refine (@below "pass" (by decide) (by decide)).trans ?_
    unfold Rule.conditionAt?
    cases r.thresholds <;> rfl
  | warning =>
    refine (@below "warning" (by decide) (by decide)).trans ?_
    unfold Rule.conditionAt?
    cases r.thresholds <;> rfl

theorem follow?_text (catalog : Catalog α) (place : ConditionPlace) :
    (CatalogPart.catalog catalog).follow? place.text = (catalog.conditionAt? place).map .condition := by
  rw [ConditionPlace.text, follow?_append, follow?_rulePlace]
  unfold Catalog.conditionAt?
  cases catalog.ruleAt? place.rule with
  | none => rfl
  | some rule => exact follow?_slot rule place.slot

end CatalogPart

end Following

namespace Catalog

variable {α : Type}

/-- A faithful list of a catalog's conditions with their places. -/
structure EnumeratedBy (catalog : Catalog α) (listed : List (ConditionPlace × Condition α)) : Prop where
  /-- At a place there is the condition that stands there in the catalog, once, or nothing. -/
  once : ∀ place, listed.filter (fun placed => placed.1 = place) =
    ((catalog.conditionAt? place).map fun condition => (place, condition)).toList
  ordered : listed.Pairwise fun p q => p.1.Before q.1
  distinct : (listed.map fun placed => placed.1.text).Nodup
  followed : ∀ placed ∈ listed,
    (CatalogPart.catalog catalog).follow? placed.1.text = some (.condition placed.2)

theorem nodup_places (catalog : Catalog α) : (catalog.conditions.map Prod.fst).Nodup :=
  List.pairwise_map.mpr (catalog.pairwise_conditions.imp ConditionPlace.Before.ne)

theorem filter_conditions (catalog : Catalog α) (place : ConditionPlace) :
    catalog.conditions.filter (fun placed => placed.1 = place) =
      ((catalog.conditionAt? place).map fun condition => (place, condition)).toList := by
  cases standing : catalog.conditionAt? place with
  | none =>
    refine List.filter_eq_nil_iff.mpr fun placed listed same => ?_
    obtain rfl := of_decide_eq_true same
    rw [mem_conditions_iff.mp listed] at standing
    cases standing
  | some condition =>
    have distinct := (catalog.nodup_places.of_map _).filter fun placed => decide (placed.1 = place)
    refine List.perm_singleton.mp ((List.perm_ext_iff_of_nodup distinct (List.nodup_singleton _)).mpr ?_)
    rintro ⟨other, found⟩
    simp only [List.mem_filter, mem_conditions_iff, decide_eq_true_eq, List.mem_singleton, Prod.mk.injEq]
    constructor
    · rintro ⟨stands, rfl⟩
      exact ⟨rfl, Option.some.inj (stands.symm.trans standing)⟩
    · rintro ⟨rfl, rfl⟩
      exact ⟨standing, rfl⟩

theorem enumeratedBy_conditions (catalog : Catalog α) : catalog.EnumeratedBy catalog.conditions where
  once := catalog.filter_conditions
  ordered := catalog.pairwise_conditions
  distinct := by
    have apart := catalog.nodup_places.map ConditionPlace.text_injective
    rwa [List.map_map] at apart
  followed := by
    rintro ⟨place, condition⟩ listed
    rw [CatalogPart.follow?_text, mem_conditions_iff.mp listed]
    rfl

/-- A rule with neither checks nor thresholds has no conditions; one with both has all of them. -/
example (scoring : Scoring Unit) (c : Condition Unit) :
    (Catalog.mk "1.0.0" "" scoring [⟨"content", "Content", 10,
      [⟨"title", .low, "", "", none, none⟩,
        ⟨"links", .low, "", "", some [c, c], some ⟨c, some c⟩⟩]⟩]).conditions.map
          (fun placed => placed.1.text) =
      ["categories[0].rules[1].checks[0]", "categories[0].rules[1].checks[1]",
        "categories[0].rules[1].thresholds.pass", "categories[0].rules[1].thresholds.warning"] := by
  cbv

end Catalog

end PageHealth
