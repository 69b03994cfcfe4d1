import Formulas.Proofs.Formula.Preorder
import Formulas.Proofs.Formula.Spelling

/-! Where means stand in formulas, and what formulas begin with. A formula begins with its first
operand, with the first operand of that one, and so on. In the plain form, where operations
follow their operands without brackets, these parts are told from all others by their sizes. -/
namespace Formulas.Formula

/-- A mean occurs somewhere. -/
def hasMean (f : Formula) : Bool :=
  f.kinds.any Operation.isVariadic

/-- No operand of any operation holds a mean, unless it is the first one. -/
def meansLead (f : Formula) : Bool :=
  (f.nodes .depthFirst).all fun node => node.operands.tail.all fun part => !part.hasMean

/-- The formula is the other one, or its first operand begins with it. -/
inductive Begins : Formula → Formula → Prop where
  | refl (f : Formula) : Begins f f
  | first {f g : Formula} {op : Operation} {rest : List Formula} (hFirst : Begins f g) :
      Begins f (.operation op (g :: rest))

variable {f g h : Formula} {op : Operation} {operands rest : List Formula}

@[simp] theorem hasMean_constant (value : Constant) : hasMean (.constant value) = false := by
  rw [hasMean, kinds_of_isOperation_eq_false rfl, List.any_nil]

@[simp] theorem hasMean_coordinate (which : Coordinate) : hasMean (.coordinate which) = false := by
  rw [hasMean, kinds_of_isOperation_eq_false rfl, List.any_nil]

theorem hasMean_operation (op : Operation) (operands : List Formula) :
    hasMean (.operation op operands) = (op.isVariadic || operands.any hasMean) := by
  rw [hasMean, kinds_operation, List.any_cons, List.any_flatMap]
  rfl

/-- Without means there is none in any operand. -/
theorem hasMean_operation_eq_false : hasMean (.operation op operands) = false ↔
    op.isVariadic = false ∧ ∀ f ∈ operands, f.hasMean = false := by
  simp [hasMean_operation]

@[simp] theorem meansLead_constant (value : Constant) : meansLead (.constant value) = true := by
  rw [meansLead, nodes_depthFirst]
  rfl

@[simp] theorem meansLead_coordinate (which : Coordinate) :
    meansLead (.coordinate which) = true := by
  rw [meansLead, nodes_depthFirst]
  rfl

theorem meansLead_operation : meansLead (.operation op operands) = true ↔
    (∀ part ∈ operands.tail, part.hasMean = false) ∧ ∀ f ∈ operands, f.meansLead = true := by
  rw [meansLead, nodes_depthFirst]
  simp only [List.all_cons, List.all_flatMap, Bool.and_eq_true, List.all_eq_true, meansLead,
    Bool.not_eq_true', Formula.operands]

/-- Without means there is none in a wrong place. -/
theorem meansLead_of_hasMean_eq_false (hNone : f.hasMean = false) : f.meansLead = true := by
  induction f with
  | constant value => exact meansLead_constant value
  | coordinate which => exact meansLead_coordinate which
  | operation op operands ih =>
      obtain ⟨-, hOperands⟩ := hasMean_operation_eq_false.mp hNone
      exact meansLead_operation.mpr
        ⟨fun part hPart => hOperands part (List.mem_of_mem_tail hPart),
          fun f hf => ih f hf (hOperands f hf)⟩

/-- All means lead if those of the first operand do and the others hold none. -/
theorem meansLead_cons : meansLead (.operation op (f :: rest)) = true ↔
    f.meansLead = true ∧ ∀ part ∈ rest, part.hasMean = false := by
  rw [meansLead_operation, List.tail_cons, List.forall_mem_cons]
  constructor
  · rintro ⟨hNone, hFirst, -⟩
    exact ⟨hFirst, hNone⟩
  · rintro ⟨hFirst, hNone⟩
    exact ⟨hNone, hFirst, fun part hPart => meansLead_of_hasMean_eq_false (hNone part hPart)⟩

theorem Begins.trans (hFirst : f.Begins g) (hSecond : g.Begins h) : f.Begins h := by
  induction hSecond with
  | refl => exact hFirst
  | first hMore ih => exact .first ih

theorem size_cons : size (.operation op (f :: rest)) = 1 + (f.size + totalSize rest) :=
  size_operation ..

theorem Begins.size_le (hBegins : f.Begins g) : f.size ≤ g.size := by
  induction hBegins with
  | refl => exact Nat.le_refl _
  | first hFirst ih =>
      rw [size_cons]
      omega

theorem Begins.normal (hBegins : f.Begins g) : f.normal.Begins g.normal := by
  induction hBegins with
  | refl => exact .refl _
  | first hFirst ih =>
      rw [normal_operation]
      exact .first ih

@[simp] theorem size_normal (f : Formula) : f.normal.size = f.size := by
  induction f with
  | constant value => rfl
  | coordinate which => rfl
  | operation op operands ih =>
      rw [normal_operation, size_operation, size_operation, List.map_map]
      exact congrArg (fun sizes => 1 + sizes.sum) (List.map_congr_left ih)

@[simp] theorem kinds_normal (f : Formula) : f.normal.kinds = f.kinds := by
  induction f with
  | constant value =>
      rw [kinds_of_isOperation_eq_false rfl, kinds_of_isOperation_eq_false rfl]
  | coordinate which => rfl
  | operation op operands ih =>
      rw [normal_operation, kinds_operation, kinds_operation, List.flatMap_map]
      exact congrArg (op :: ·) (List.flatMap_congr ih)

@[simp] theorem hasMean_normal (f : Formula) : f.normal.hasMean = f.hasMean := by
  rw [hasMean, kinds_normal, hasMean]

@[simp] theorem meansLead_normal (f : Formula) : f.normal.meansLead = f.meansLead := by
  induction f with
  | constant value => exact (meansLead_constant _).trans (meansLead_constant _).symm
  | coordinate which => rfl
  | operation op operands ih =>
      rw [Bool.eq_iff_iff, normal_operation, meansLead_operation, meansLead_operation,
        ← List.map_tail]
      simp only [List.forall_mem_map, hasMean_normal]
      apply and_congr_right
      intro _
      apply forall₂_congr
      intro f hf
      rw [ih f hf]

theorem tokens_plain_operation (op : Operation) (operands : List Formula) :
    tokens .plain (.operation op operands) =
      (operands.map (tokens .plain)).flatten ++ [.operation op] :=
  tokens_operation ..

/-- In the plain form every node is one symbol. -/
theorem length_tokens_plain (f : Formula) : (f.tokens .plain).length = f.size := by
  induction f with
  | constant value => rfl
  | coordinate which => rfl
  | operation op operands ih =>
      have hSizes : (operands.map fun f => (f.tokens .plain).length) = operands.map size :=
        List.map_congr_left ih
      rw [tokens_plain_operation, size_operation, ← hSizes]
      simp [Function.comp_def, Nat.add_comm]

theorem length_flatten_plain (operands : List Formula) :
    (operands.map (tokens .plain)).flatten.length = totalSize operands := by
  simp only [List.length_flatten, List.map_map, totalSize, Function.comp_def, length_tokens_plain]

/-- Written formulas hold no integer that cannot be read. -/
theorem oversized_notMem_tokens_plain (f : Formula) : .oversized ∉ f.tokens .plain := by
  induction f with
  | constant value => exact nofun
  | coordinate which => exact nofun
  | operation op operands ih =>
      rw [tokens_plain_operation]
      simpa using ih

end Formulas.Formula
