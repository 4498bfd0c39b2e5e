import Mathlib.Data.List.Basic
import NameLowering.Proofs.Types.Recognition
import NameLowering.Proofs.Types.Resolution

/-!
# Growing tables of types

A table grows by types that are added at its end. Where the types of a table mention only each
other, nothing that is added later is ever looked at when one of them is resolved, so each of them
stays what it was.
-/

namespace NameLowering

/-- The types that a form mentions, among them those that no lookup goes on to. -/
def TypeForm.references : TypeForm → List TypeId
  | .object properties _ => properties.map Property.type
  | .function parameters result _ => result :: parameters
  | .alias _ target => [target]
  | .intersection members | .union members => members
  | .intrinsic _ | .uniqueSymbol _ => []

theorem TypeForm.parts_subset_references (form : TypeForm) : form.parts ⊆ form.references := by
  cases form <;> simp [parts, references]

namespace TypeTable

def Holds (table : TypeTable) (id : TypeId) : Prop :=
  ∃ form, table.get? id = some form

/-- Every type that is mentioned in the table is there. -/
def Closed (table : TypeTable) : Prop :=
  ∀ id form, table.get? id = some form → ∀ mentioned ∈ form.references, table.Holds mentioned

/-- Every type of the earlier table stands in its place in the later one. -/
def Extends (earlier later : TypeTable) : Prop :=
  ∀ id form, earlier.get? id = some form → later.get? id = some form

variable {table middle later : TypeTable} {id : TypeId} {levels : Nat}

theorem Extends.trans (first : table.Extends middle) (second : middle.Extends later) :
    table.Extends later := by
  intro id form found
  exact second id form (first id form found)

theorem extends_add (table : TypeTable) (form : TypeForm) : table.Extends (table.add form).2 := by
  intro id other found
  have inside : id.index < table.types.size := (Array.getElem?_eq_some_iff.mp found).1
  rw [get?, add, Array.getElem?_push_lt inside]
  exact (Array.getElem?_eq_getElem inside).symm.trans found

theorem get?_add (table : TypeTable) (form : TypeForm) :
    (table.add form).2.get? (table.add form).1 = some form :=
  Array.getElem?_push_size

/-! ## Types of a closed table -/

theorem Closed.holds_part
    (closed : table.Closed) {form : TypeForm} (found : table.get? id = some form)
    {part : TypeId} (isPart : part ∈ form.parts) :
    table.Holds part :=
  closed id form found part (form.parts_subset_references isPart)

/-- The type of a property that a lookup finds is there, too. -/
theorem Closed.holds_property
    (closed : table.Closed) {name : String} {type : TypeId}
    (answered : table.property? id name = some type) :
    table.Holds type := by
  obtain ⟨object, properties, annotations, _, isObject, listed⟩ :=
    exists_object_of_propertyWithin? answered
  exact closed object _ isObject type (List.mem_map.mpr ⟨_, listed, rfl⟩)

theorem Closed.propertyWithin?_eq
    (closed : table.Closed) (grows : table.Extends later) (name : String) (held : table.Holds id) :
    later.propertyWithin? name levels id = table.propertyWithin? name levels id := by
  induction levels generalizing id with
  | zero =>
      rfl
  | succ levels inductionHypothesis =>
      obtain ⟨form, found⟩ := held
      apply propertyWithin?_congr (grows id form found) found
      intro part isPart
      exact inductionHypothesis (closed.holds_part found isPart)

theorem Closed.property?_eq
    (closed : table.Closed) (grows : table.Extends later) (name : String) (held : table.Holds id) :
    later.property? id name = table.property? id name :=
  closed.propertyWithin?_eq grows name held

theorem Closed.isUniqueSymbolWithin_eq
    (closed : table.Closed) (grows : table.Extends later) (held : table.Holds id) :
    later.isUniqueSymbolWithin levels id = table.isUniqueSymbolWithin levels id := by
  induction levels generalizing id with
  | zero =>
      rfl
  | succ levels inductionHypothesis =>
      obtain ⟨form, found⟩ := held
      simp only [isUniqueSymbolWithin, found, grows id form found]
      cases form with
      | «alias» label target =>
          exact inductionHypothesis (closed.holds_part found List.mem_cons_self)
      | intrinsic | uniqueSymbol | object | function | intersection | union =>
          rfl

theorem Closed.collectAnnotations_eq
    (closed : table.Closed) (grows : table.Extends later) (held : table.Holds id)
    (gathered : List Annotation) :
    later.collectAnnotations levels gathered id = table.collectAnnotations levels gathered id := by
  induction levels generalizing id gathered with
  | zero =>
      rfl
  | succ levels inductionHypothesis =>
      obtain ⟨form, found⟩ := held
      simp only [collectAnnotations, found, grows id form found]
      cases form with
      | «alias» label target =>
          exact inductionHypothesis (closed.holds_part found List.mem_cons_self) gathered
      | intersection members =>
          apply List.foldl_ext
          intro gathered member inMembers
          exact inductionHypothesis (closed.holds_part found inMembers) gathered
      | intrinsic | uniqueSymbol | object | function | union =>
          rfl

theorem Closed.isMarked_eq
    (closed : table.Closed) (grows : table.Extends later) (held : table.Holds id) :
    later.isMarked id = table.isMarked id := by
  rw [isMarked, isMarked, closed.property?_eq grows _ held]
  cases answered : table.property? id Extension.markProperty with
  | none =>
      rw [Option.any_none, Option.any_none]
  | some mark =>
      rw [Option.any_some, Option.any_some]
      exact closed.isUniqueSymbolWithin_eq grows (closed.holds_property answered)

theorem Closed.isExtension_eq
    (closed : table.Closed) (grows : table.Extends later) (held : table.Holds id)
    (extension : Extension) :
    later.isExtension id extension = table.isExtension id extension := by
  rw [TypeTable.isExtension_eq, TypeTable.isExtension_eq, closed.property?_eq grows _ held]
  cases answered : table.property? id extension.brand with
  | none =>
      rw [Option.any_none, Option.any_none]
  | some brand =>
      rw [Option.any_some, Option.any_some]
      exact closed.isMarked_eq grows (closed.holds_property answered)

theorem Closed.extension?_eq
    (closed : table.Closed) (grows : table.Extends later) (held : table.Holds id) :
    later.extension? id = table.extension? id := by
  have sameTest : later.isExtension id = table.isExtension id :=
    funext (closed.isExtension_eq grows held)
  rw [extension?, extension?, sameTest]

end TypeTable

end NameLowering
