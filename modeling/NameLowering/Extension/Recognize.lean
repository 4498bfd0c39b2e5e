import NameLowering.Extension.Basic
import NameLowering.Program.Basic

/-!
# Recognition of extensions

A type is that of an extension if it has the extension's brand and the brand's type carries the
mark, a unique symbol. A property that merely shares the brand's name does not count, and the
names of aliases play no part.
-/

namespace NameLowering

/-- The property of a brand's type that holds the mark. -/
def Extension.markProperty : String := "__luaExtensionSymbol"

namespace TypeTable

/-- Whether a type is branded as an extension. -/
def isExtension (table : TypeTable) (id : TypeId) (extension : Extension) : Bool :=
  match table.property? id extension.brand with
  | none => false
  | some brand => (table.property? brand Extension.markProperty).any table.isUniqueSymbol

/-- The first extension that a type is branded as. -/
def extension? (table : TypeTable) (id : TypeId) : Option Extension :=
  Extension.all.find? (table.isExtension id)

/-- Adds the intersection of a type with an object that holds a freshly marked brand. -/
def addExtension (table : TypeTable) (extension : Extension) (base : TypeId) :
    TypeId × TypeTable :=
  let (mark, table) := table.add (.uniqueSymbol Extension.markProperty)
  let (brand, table) := table.add (.object [⟨Extension.markProperty, mark⟩] [])
  let (branded, table) := table.add (.object [⟨extension.brand, brand⟩] [])
  table.add (.intersection [base, branded])

end TypeTable

namespace Program

/-- The extension that the type of a node is branded as. -/
def extensionAt? (program : Program) (ref : NodeRef) : Option Extension :=
  (program.typeAt ref).bind program.types.extension?

/-- Whether the type of a node is annotated as the header of a numeric loop. -/
def isForRangeAt (program : Program) (ref : NodeRef) : Bool :=
  (program.annotationsAt ref).contains .forRange

end Program

end NameLowering
