import Mathlib.Order.FixedPoints
import Mathlib.Order.CompletePartialOrder
import ViciaDb.Query.Evaluator

namespace ViciaDb

variable (ext : Externals)

abbrev Assignment := String → Value

def Triple.normalize (t : Triple) : Triple := { t with value := normalizeJoinValue ext t.value }

def constantValue (edn : EdnValue) : Option Value :=
  match edn with
  | .keyword k => some (.ref (ext.keywordId k))
  | .uuid id => some (.ref id)
  | .string s => some (.string s)
  | .integer i => some (.integer i)
  | .float f => some (.float f)
  | .boolean b => some (.boolean b)
  | .nil => some .null
  | _ => none

/-- The component stands for `value`. A wildcard stands for anything, a float for the floats next
    to it. -/
def EdnValue.Denotes (σ : Assignment) (edn : EdnValue) (value : Value) : Prop :=
  match edn with
  | .symbol s => isWildcard s = true ∨ ViciaDb.isVariable s = true ∧ σ s = value
  | .float f => ∃ g, value = .float g ∧ ext.f64Near f g = true
  | constant => constantValue ext constant = some value

def EdnValue.DenotesAttr (σ : Assignment) (edn : EdnValue) (attr : String) : Prop :=
  match edn with
  | .symbol s => isWildcard s = true ∨ ViciaDb.isVariable s = true ∧ σ s = .ref (ext.keywordId attr)
  | .keyword k => k = attr
  | _ => False

/-- The triple is the pattern's instance. Triples carry no metadata, so a temporal
    pseudo-attribute has no instance among them. -/
def Pattern.Instance (σ : Assignment) (p : Pattern) (t : Triple) : Prop :=
  match p.attr with
  | .real attr =>
    p.entity.Denotes ext σ (.ref t.entity) ∧ attr.DenotesAttr ext σ t.attr ∧
      p.value.Denotes ext σ t.value
  | .pseudo _ => False

def Pattern.Holds (σ : Assignment) (model : Set Triple) (p : Pattern) : Prop :=
  ∃ t ∈ model, p.Instance ext σ t

def WhereClause.Holds (σ : Assignment) (model : Set Triple) : WhereClause → Prop
  | .pattern p => p.Holds ext σ model
  | .ruleInvocation predicate args =>
    ∃ p, ruleInvocationToPattern predicate args = .ok p ∧ p.Holds ext σ model
  | _ => False

def EdnValue.headValue (σ : Assignment) (edn : EdnValue) : Option Value :=
  match edn.asVariable with
  | some name => some (σ name)
  | none => constantValue ext edn

def headInstance (σ : Assignment) (head : List EdnValue) : Option Triple :=
  match head with
  | .symbol predicate :: entityArg :: rest =>
    match entityArg.headValue ext σ, rest with
    | some (.ref entity), [] => some ⟨entity, ":" ++ predicate, .boolean true⟩
    | some (.ref entity), valueArg :: _ =>
      (valueArg.headValue ext σ).map fun value => ⟨entity, ":" ++ predicate, value⟩
    | _, _ => none
  | _ => none

def consequences (rules : List Rule) (model : Set Triple) : Set Triple :=
  {t | ∃ rule ∈ rules, ∃ σ : Assignment,
    (∀ clause ∈ rule.body, clause.Holds ext σ model) ∧ headInstance ext σ rule.head = some t}

variable {σ : Assignment} {model model' : Set Triple} {rules : List Rule} {base : Set Triple}

theorem Pattern.Holds.mono {p : Pattern} (holds : p.Holds ext σ model) (sub : model ⊆ model') :
    p.Holds ext σ model' := by
  obtain ⟨t, member, inst⟩ := holds
  exact ⟨t, sub member, inst⟩

theorem WhereClause.Holds.mono {c : WhereClause} (holds : c.Holds ext σ model) (sub : model ⊆ model') :
    c.Holds ext σ model' := by
  cases c with
  | pattern p => exact Pattern.Holds.mono ext holds sub
  | ruleInvocation predicate args =>
    obtain ⟨p, eq, holds⟩ := holds
    exact ⟨p, eq, holds.mono ext sub⟩
  | _ => exact holds

theorem consequences_mono (rules : List Rule) : Monotone (consequences ext rules) := by
  rintro model model' sub t ⟨rule, member, σ, body, head⟩
  exact ⟨rule, member, σ, fun clause inBody => (body clause inBody).mono ext sub, head⟩

def inference (rules : List Rule) (base : Set Triple) : Set Triple →o Set Triple where
  toFun model := base ∪ consequences ext rules model
  monotone' := fun _ _ sub => Set.union_subset_union_right _ (consequences_mono ext rules sub)

def leastModel (rules : List Rule) (base : Set Triple) : Set Triple :=
  (inference ext rules base).lfp

theorem eq_leastModel (contains : base ⊆ model) (closed : consequences ext rules model ⊆ model)
    (least : model ⊆ leastModel ext rules base) : model = leastModel ext rules base :=
  le_antisymm least ((inference ext rules base).lfp_le (Set.union_subset contains closed))

theorem base_subset_leastModel (rules : List Rule) (base : Set Triple) :
    base ⊆ leastModel ext rules base := by
  rw [leastModel, ← OrderHom.map_lfp]
  exact Set.subset_union_left

theorem consequences_leastModel (rules : List Rule) (base : Set Triple) :
    consequences ext rules (leastModel ext rules base) ⊆ leastModel ext rules base := by
  intro t derived
  rw [leastModel, ← OrderHom.map_lfp]
  exact Or.inr derived

theorem consequences_subset_leastModel (sub : model ⊆ leastModel ext rules base) :
    consequences ext rules model ⊆ leastModel ext rules base :=
  (consequences_mono ext rules sub).trans (consequences_leastModel ext rules base)

end ViciaDb
