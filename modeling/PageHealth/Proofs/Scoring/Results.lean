import Mathlib.Algebra.BigOperators.Group.List.Basic
import Mathlib.Data.List.Forall2
import Mathlib.Data.List.Nodup
import PageHealth.Proofs.Catalog.Accepted
import PageHealth.Scoring

namespace PageHealth

section Lists

variable {α : Type} [Scalar α]

theorem Category.evaluate_outcomes (category : Category α) (scoring : Scoring α) (facts : Facts α) :
    (category.evaluate scoring facts).outcomes =
      category.rules.map (category.outcome scoring (category.weight scoring) facts) := rfl

theorem Category.evaluate_percentage_zero {category : Category α} (absent : category.maxPoints = 0)
    (scoring : Scoring α) (facts : Facts α) :
    (category.evaluate scoring facts).score.percentage = 0 := if_pos absent

theorem Category.evaluate_percentage {category : Category α} (present : category.maxPoints ≠ 0)
    (scoring : Scoring α) (facts : Facts α) :
    (category.evaluate scoring facts).score.percentage =
      percentage (category.evaluate scoring facts).points (Scalar.ofNat category.maxPoints.toNat) :=
  if_neg present

theorem Catalog.evaluate_categoryScores (catalog : Catalog α) (facts : Facts α) :
    (catalog.evaluate facts).categoryScores =
      catalog.categories.map fun c => (c.evaluate catalog.scoring facts).score := List.map_map

theorem Catalog.evaluate_healthScore (catalog : Catalog α) (facts : Facts α) :
    (catalog.evaluate facts).healthScore =
      healthScore (catalog.categories.map fun c => (c.evaluate catalog.scoring facts).points)
        (catalog.categories.map fun c => Scalar.ofNat c.maxPoints.toNat) :=
  congrArg (healthScore · _) List.map_map

theorem Catalog.outcomes_eq_flatMap (catalog : Catalog α) (facts : Facts α) :
    (catalog.evaluate facts).outcomes =
      catalog.categories.flatMap fun c => (c.evaluate catalog.scoring facts).outcomes :=
  List.flatMap_map ..

theorem Catalog.evaluate_outcomes (catalog : Catalog α) (facts : Facts α) :
    (catalog.evaluate facts).outcomes = catalog.categories.flatMap fun c =>
      c.rules.map (c.outcome catalog.scoring (c.weight catalog.scoring) facts) :=
  catalog.outcomes_eq_flatMap facts

theorem Category.evaluate_recommendations (category : Category α) (scoring : Scoring α)
    (facts : Facts α) :
    (category.evaluate scoring facts).recommendations = category.rules.filterMap fun rule =>
      rule.recommend? (category.outcome scoring (category.weight scoring) facts rule) := by
  have zipped (rules : List (Rule α)) (f : Rule α → Outcome α) :
      ((rules.zip (rules.map f)).filterMap fun entry => entry.1.recommend? entry.2) =
        rules.filterMap fun rule => rule.recommend? (f rule) := by
    induction rules with
    | nil => rfl
    | cons rule rest ih => simp [List.filterMap_cons, ih]
  exact zipped category.rules _

theorem Catalog.recommendations_eq_flatMap (catalog : Catalog α) (facts : Facts α) :
    (catalog.evaluate facts).recommendations =
      catalog.categories.flatMap fun c => (c.evaluate catalog.scoring facts).recommendations :=
  List.flatMap_map ..

theorem Catalog.evaluate_recommendations (catalog : Catalog α) (facts : Facts α) :
    (catalog.evaluate facts).recommendations = catalog.categories.flatMap fun c =>
      c.rules.filterMap fun rule =>
        rule.recommend? (c.outcome catalog.scoring (c.weight catalog.scoring) facts rule) := by
  simp only [catalog.recommendations_eq_flatMap, Category.evaluate_recommendations]

theorem map_eq_map_of_forall₂ {β γ δ : Type} {f : β → δ} {g : γ → δ} {xs : List β} {ys : List γ}
    (same : List.Forall₂ (fun a b => f a = g b) xs ys) : xs.map f = ys.map g := by
  induction same with
  | nil => rfl
  | cons head _ ih => rw [List.map_cons, List.map_cons, head, ih]

theorem Category.weight_congr {a b : Category α} (scoring : Scoring α)
    (severities : List.Forall₂ (fun r s => r.severity = s.severity) a.rules b.rules) :
    a.weight scoring = b.weight scoring := by
  apply congrArg Scalar.sum
  apply map_eq_map_of_forall₂
  refine severities.imp fun r s same => ?_
  unfold Rule.weight
  rw [same]

theorem Catalog.ids_categoryScores (catalog : Catalog α) (facts : Facts α) :
    (catalog.evaluate facts).categoryScores.map CategoryScore.id = catalog.categories.map Category.id := by
  rw [catalog.evaluate_categoryScores, List.map_map]
  rfl

theorem Catalog.ruleCount_eq_sum {α : Type} (catalog : Catalog α) :
    catalog.ruleCount = (catalog.categories.map fun c => c.rules.length).sum := by
  rw [List.sum_eq_foldl, List.foldl_map]
  rfl

end Lists

theorem find?_key_of_nodup {β κ : Type} [DecidableEq κ] (key : β → κ) {entries : List β} {entry : β}
    (distinct : (entries.map key).Nodup) (member : entry ∈ entries) :
    (entries.find? fun e => key e = key entry) = some entry := by
  induction entries with
  | nil => cases member
  | cons first rest ih =>
    obtain ⟨new, others⟩ := List.nodup_cons.mp distinct
    rcases List.mem_cons.mp member with rfl | later
    · simp
    · have apart : key first ≠ key entry := by
        intro same
        exact new (same ▸ List.mem_map_of_mem later)
      rw [List.find?_cons_of_neg (by simpa using apart)]
      exact ih others later

theorem filter_flatMap_of_nodup {β γ κ : Type} [DecidableEq κ] {key : β → κ} {tag : γ → κ}
    {part : β → List γ} (tagged : ∀ item, ∀ x ∈ part item, tag x = key item) {items : List β}
    {item : β} (distinct : (items.map key).Nodup) (member : item ∈ items) :
    (items.flatMap part).filter (fun x => tag x = key item) = part item := by
  induction items with
  | nil => cases member
  | cons first rest ih =>
    obtain ⟨new, others⟩ := List.nodup_cons.mp distinct
    rw [List.flatMap_cons, List.filter_append]
    rcases List.mem_cons.mp member with rfl | later
    · have own : (part item).filter (fun x => tag x = key item) = part item :=
        List.filter_eq_self.mpr fun x within => decide_eq_true (tagged item x within)
      have foreign : (rest.flatMap part).filter (fun x => tag x = key item) = [] := by
        refine List.filter_eq_nil_iff.mpr fun x within same => new ?_
        obtain ⟨other, listed, inside⟩ := List.mem_flatMap.mp within
        rw [← of_decide_eq_true same, tagged other x inside]
        exact List.mem_map_of_mem listed
      rw [own, foreign, List.append_nil]
    · have foreign : (part first).filter (fun x => tag x = key item) = [] := by
        refine List.filter_eq_nil_iff.mpr fun x within same => new ?_
        rw [← tagged first x within, of_decide_eq_true same]
        exact List.mem_map_of_mem later
      rw [foreign, List.nil_append, ih others later]

section Lookups

variable {catalog : Catalog Binary64} {category : Category Binary64} {rule : Rule Binary64}

theorem Catalog.Sound.category?_eq (sound : catalog.Sound) (member : category ∈ catalog.categories) :
    catalog.category? category.id = some category :=
  find?_key_of_nodup Category.id sound.ids_nodup member

theorem Catalog.Sound.outcome_ids_nodup (sound : catalog.Sound) (facts : Facts Binary64) :
    ((catalog.evaluate facts).outcomes.map fun o => (o.category, o.id)).Nodup := by
  rw [Catalog.evaluate_outcomes, List.map_flatMap]
  refine List.nodup_flatMap.mpr ⟨fun c member => ?_, ?_⟩
  · have distinct := (sound.category c member).ids_nodup
    rw [List.map_map]
    exact (List.Nodup.of_map Prod.snd (by simpa [Function.comp_def, Category.outcome] using distinct))
  · refine (List.pairwise_map.mp sound.ids_nodup).imp fun {a b} apart => ?_
    simp only [Function.onFun, List.Disjoint, List.map_map, List.mem_map]
    rintro _ ⟨_, _, rfl⟩ ⟨_, _, same⟩
    exact apart (congrArg Prod.fst same).symm

theorem Catalog.Sound.outcome?_eq (sound : catalog.Sound) {facts : Facts Binary64}
    {outcome : Outcome Binary64} (member : outcome ∈ (catalog.evaluate facts).outcomes) :
    (catalog.evaluate facts).outcome? outcome.category outcome.id = some outcome := by
  have found := find?_key_of_nodup _ (sound.outcome_ids_nodup facts) member
  rw [← found]
  unfold Evaluation.outcome?
  congr 1
  funext o
  simp

end Lookups

end PageHealth
