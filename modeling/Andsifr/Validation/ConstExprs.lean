import Andsifr.Binary.Decoded
import Andsifr.Wasm.ConstInstruction

namespace Andsifr.Validation.Module

open Lib Wasm List Check

/-- All checks of `validate` pass, with the given declarations. -/
structure Accepted (m : Module) (features : CoreFeatures) (d : Declarations) : Prop where
  concreteRefTypes : validateConcreteRefTypes m = .ok ()
  startSection : validateStartSection m = .ok ()
  declarations : allDeclarations m = .ok d
  tableInits : validateTableInitExprs m d.globals (len32 d.functions) = .ok ()
  imports : validateImports m features = .ok ()
  globals : validateGlobals m d.globals (len32 d.functions) = .ok ()
  memory : validateMemory m d.memory d.globals = .ok ()
  exports : validateExports m features d = .ok ()
  tags : validateTagSection m = .ok ()
  code : validateCode m features d = .ok ()
  elements : validateTable m features d.tables = .ok ()
  dataCount : validateDataCountSection m = .ok ()

theorem accepted_of_validate {m : Module} {features : CoreFeatures}
    (h : validate m features = .ok ()) : ∃ d, Accepted m features d := by
  simp only [validate, validateDeclarations, bind_eq_ok_iff] at h
  obtain ⟨d, ⟨_, hrefs, _, hstart, d, hdecl, _, htables, _, himports, _, hglobals, _, hmemory, _,
    hexports, _, htags, ⟨⟩⟩, _, hcode, _, helements, hcount⟩ := h
  exact ⟨d, hrefs, hstart, hdecl, htables, himports, hglobals, hmemory, hexports, htags, hcode,
    helements, hcount⟩

inductive ExpressionKind where
  | global | table | data | elementOffset | elementItem
  deriving DecidableEq, Repr

/-- A constant expression of a module and the type that its value is to have. -/
structure CheckedExpression where
  kind : ExpressionKind
  expr : ConstantExpression
  type : ValueType
  deriving DecidableEq, Repr

/-- The constant expressions of a module, in the order of the kinds. Only active segments have an
offset. -/
def checkedExpressions (m : Module) : List CheckedExpression :=
  m.globalSection.map (fun g => ⟨.global, g.init, g.type.valType⟩) ++
  m.tableSection.filterMap (fun t => t.initExpr.map (⟨.table, ·, t.type⟩)) ++
  (m.dataSection.filter (!·.passive)).map (fun d => ⟨.data, d.offsetExpression, .i32⟩) ++
  (m.elementSection.filter (·.mode = .active)).map (fun e =>
    ⟨.elementOffset, e.offsetExpr, .i32⟩) ++
  m.elementSection.flatMap (fun e => e.init.map (⟨.elementItem, ·, e.type⟩))

/-- The place of the expression in the module. -/
def CheckedExpression.Stands (m : Module) (c : CheckedExpression) : Prop :=
  match c.kind with
  | .global => ∃ g ∈ m.globalSection, g.init = c.expr ∧ g.type.valType = c.type
  | .table => ∃ t ∈ m.tableSection, t.initExpr = some c.expr ∧ t.type = c.type
  | .data => ∃ d ∈ m.dataSection, d.passive = false ∧ d.offsetExpression = c.expr ∧ c.type = .i32
  | .elementOffset => ∃ elem ∈ m.elementSection, elem.mode = .active ∧ elem.offsetExpr = c.expr ∧
      c.type = .i32
  | .elementItem => ∃ elem ∈ m.elementSection, c.expr ∈ elem.init ∧ elem.type = c.type

theorem stands_of_mem {m : Module} {c : CheckedExpression} (hc : c ∈ checkedExpressions m) :
    c.Stands m := by
  simp only [checkedExpressions, mem_append, mem_map, mem_filterMap,
    mem_filter, mem_flatMap, Option.map_eq_some_iff] at hc
  rcases hc with (((⟨g, hg, rfl⟩ | ⟨t, ht, e, he, rfl⟩) | ⟨s, ⟨hs, hactive⟩, rfl⟩) |
    ⟨elem, ⟨helem, hactive⟩, rfl⟩) | ⟨elem, helem, init, hinit, rfl⟩
  · exact ⟨g, hg, rfl, rfl⟩
  · exact ⟨t, ht, he, rfl⟩
  · exact ⟨s, hs, by simpa using hactive, rfl, rfl⟩
  · exact ⟨elem, helem, of_decide_eq_true hactive, rfl, rfl⟩
  · exact ⟨elem, helem, hinit, rfl⟩

/-- The types of the imported globals, which are all that most constant expressions can read. -/
def importedGlobalTypes (m : Module) : List GlobalType :=
  (importedGlobals m).take m.importGlobalCount

def globalTypes (m : Module) : List GlobalType :=
  importedGlobalTypes m ++ m.globalSection.map Global.type

/-- The check that an expression is put through. -/
def CheckedExpression.Passes (m : Module) (features : CoreFeatures)
    (c : CheckedExpression) : Prop :=
  match c.kind with
  | .global | .table => validateConstExpression m (importedGlobalTypes m)
      (len32 (importedFunctions m ++ m.functionSection)) c.expr c.type = .ok ()
  | .data => validateConstExpression m (importedGlobalTypes m) 0 c.expr c.type = .ok ()
  | .elementOffset => ∃ idx values,
      (evaluateConstExpr c.expr (offsetResolvers m features idx)).1 = .ok (values, c.type)
  | .elementItem => ∃ idx ei, validateElementInit m features c.type idx ei c.expr = .ok ()

section

variable {m : Module} {features : CoreFeatures} {d : Declarations}

theorem sliceTo_of_accepted (hdecoded : Decoded m) (h : Accepted m features d) :
    sliceTo d.globals m.importGlobalCount = .ok (importedGlobalTypes m) := by
  obtain ⟨_, -, hd⟩ := bind_inv h.declarations
  cases hd
  have hcount := hdecoded.importedGlobals
  rw [sliceTo_eq_ok_iff]
  refine ⟨by rw [length_append]; omega, ?_⟩
  rw [take_append_of_le_length hcount]
  rfl

theorem functions_of_accepted (h : Accepted m features d) :
    d.functions = importedFunctions m ++ m.functionSection := by
  obtain ⟨_, -, hd⟩ := bind_inv h.declarations
  cases hd
  rfl

theorem passes_of_accepted (hdecoded : Decoded m) (h : Accepted m features d)
    {c : CheckedExpression} (hc : c ∈ checkedExpressions m) : c.Passes m features := by
  have hslice := sliceTo_of_accepted hdecoded h
  have hfunctions := functions_of_accepted h
  have hstands := stands_of_mem hc
  rcases c with ⟨kind, expr, type⟩
  cases kind with
  | global =>
    obtain ⟨g, hg, rfl, rfl⟩ := hstands
    obtain ⟨_, -, hglobals⟩ := bind_inv h.globals
    rw [hslice, hfunctions] at hglobals
    obtain ⟨_, hg⟩ := of_forEach_eq_ok hglobals hg
    exact hg
  | table =>
    obtain ⟨t, ht, he, rfl⟩ := hstands
    have htables := h.tableInits
    rw [validateTableInitExprs, hslice, hfunctions] at htables
    obtain ⟨_, ht⟩ := of_forEach_eq_ok htables ht
    obtain ⟨_, -, ht⟩ := bind_inv ht
    rw [he] at ht
    exact mapErr_inv ht
  | data =>
    obtain ⟨s, hs, hactive, rfl, rfl⟩ := hstands
    obtain ⟨_, -, hmemory⟩ := bind_inv h.memory
    rw [hslice] at hmemory
    obtain ⟨_, hs⟩ := of_forEach_eq_ok hmemory hs
    rw [if_neg (Bool.eq_false_iff.mp hactive)] at hs
    exact mapErr_inv hs
  | elementOffset =>
    obtain ⟨elem, helem, hactive, rfl, rfl⟩ := hstands
    obtain ⟨_, -, helements⟩ := bind_inv h.elements
    obtain ⟨idx, helem⟩ := of_forEach_eq_ok helements helem
    obtain ⟨_, -, helem⟩ := bind_inv helem
    rw [if_pos hactive, validateActiveElement] at helem
    split at helem
    · cases helem
    · simp only [bind_eq_ok_iff] at helem
      obtain ⟨_, -, _, -, _, -, ⟨values, t⟩, hvalues, _, htype, -⟩ := helem
      have ht : t = .i32 := of_decide_eq_true (require_eq_ok_iff.mp htype)
      exact ⟨idx, values, ht ▸ mapErr_inv hvalues⟩
  | elementItem =>
    obtain ⟨elem, helem, hinit, rfl⟩ := hstands
    obtain ⟨_, -, helements⟩ := bind_inv h.elements
    obtain ⟨idx, helem⟩ := of_forEach_eq_ok helements helem
    obtain ⟨_, hinits, -⟩ := bind_inv helem
    obtain ⟨ei, hinit⟩ := of_forEach_eq_ok hinits hinit
    exact ⟨idx, ei, hinit⟩

end

end Andsifr.Validation.Module
