import ViciaDb.Query.LeastModel

namespace ViciaDb

variable (ext : Externals) (functions : FunctionRegistry)

def assignedRow (σ : Assignment) (names : List String) : Bindings :=
  names.foldr (fun x row => row.insert (.var x) (σ x)) ∅

def Expr.valueUnder (σ : Assignment) (e : Expr) : Except ExprError Value :=
  evalExpr ext functions e (assignedRow σ e.vars)

mutual

def WhereClause.Satisfied (model : Set Triple) : WhereClause → Assignment → Prop
  | .pattern p, σ => p.Holds ext σ model
  | .ruleInvocation predicate args, σ =>
    ∃ p, ruleInvocationToPattern predicate args = .ok p ∧ p.Holds ext σ model
  | .expr e none, σ => ∃ v, e.valueUnder ext functions σ = .ok v ∧ isTruthy v = true
  | .expr e (some out), σ =>
    ∃ v, e.valueUnder ext functions σ = .ok v ∧ σ out = normalizeJoinValue ext v
  | .not body, σ => ¬AllSatisfied model body σ
  | .notJoin joinVars body, σ =>
    ¬∃ τ : Assignment, (∀ x ∈ joinVars, τ x = σ x) ∧ AllSatisfied model body τ
  | .or branches, σ => SomeSatisfied model branches σ
  | .orJoin joinVars branches, σ =>
    ∃ τ : Assignment, (∀ x ∈ joinVars, τ x = σ x) ∧ SomeSatisfied model branches τ

def AllSatisfied (model : Set Triple) : List WhereClause → Assignment → Prop
  | [], _ => True
  | clause :: rest, σ => clause.Satisfied model σ ∧ AllSatisfied model rest σ

def SomeSatisfied (model : Set Triple) : List (List WhereClause) → Assignment → Prop
  | [], _ => False
  | branch :: rest, σ => AllSatisfied model branch σ ∨ SomeSatisfied model rest σ

end

variable {ext functions}

theorem allSatisfied_iff {model : Set Triple} {clauses : List WhereClause} {σ : Assignment} :
    AllSatisfied ext functions model clauses σ ↔
      ∀ clause ∈ clauses, clause.Satisfied ext functions model σ := by
  induction clauses with
  | nil => simp [AllSatisfied]
  | cons clause rest ih => simp [AllSatisfied, ih]

theorem someSatisfied_iff {model : Set Triple} {branches : List (List WhereClause)} {σ : Assignment} :
    SomeSatisfied ext functions model branches σ ↔
      ∃ branch ∈ branches, AllSatisfied ext functions model branch σ := by
  induction branches with
  | nil => simp [SomeSatisfied]
  | cons branch rest ih => simp [SomeSatisfied, ih]

theorem lookup_assignedRow (σ : Assignment) (names : List String) (x : String) :
    (assignedRow σ names).lookup (.var x) = if x ∈ names then some (σ x) else none := by
  induction names with
  | nil => simp [assignedRow]
  | cons y rest ih =>
    change (Finmap.insert (.var y) (σ y) (assignedRow σ rest)).lookup (.var x) = _
    rw [Finmap.lookup_insert_eq_ite, ih]
    by_cases same : x = y
    · subst same
      simp
    · have apart : Key.var x ≠ Key.var y := fun equal => same (Key.var.inj equal)
      simp [apart, same]

theorem valueUnder_congr {e : Expr} {σ τ : Assignment} (same : ∀ x ∈ e.vars, σ x = τ x) :
    e.valueUnder ext functions σ = e.valueUnder ext functions τ := by
  have rows : assignedRow σ e.vars = assignedRow τ e.vars := by
    unfold assignedRow
    generalize e.vars = names at same
    induction names with
    | nil => rfl
    | cons x rest ih =>
      rw [List.foldr_cons, List.foldr_cons, same x (by simp), ih fun y member => same y (by simp [member])]
  rw [Expr.valueUnder, Expr.valueUnder, rows]

end ViciaDb
