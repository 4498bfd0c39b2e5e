import NameLowering.Program.Build
import NameLowering.Proofs.Walk.Agreement

/-!
# Other targets

What a program is lowered to depends on the target only through the spelling of names. So it is the
same for all targets but the JIT dialect, and the same for all targets if the names hold no
characters outside ASCII.
-/

namespace NameLowering

namespace Program

/-! ## Names of a program -/

/-- The names in the text of a program and the names of its symbols. -/
inductive HasName (program : Program) : String → Prop
  | identifier
      {node : Node} {name : SourceName} (isNode : node ∈ program.tree.nodes)
      (isName : node.shape.name? = some name) :
      HasName program name.text
  | symbol {symbol : Symbol} (isSymbol : symbol ∈ program.symbols.symbols) :
      HasName program symbol.name

/-- No name of a program holds a character outside ASCII. -/
def IsAscii (program : Program) : Prop :=
  ∀ name, program.HasName name → ∀ c ∈ name.toList, c.toNat < 128

/-! ## Walks for two targets -/

section

variable {program : Program} {left right : Target}
  (alike : ∀ name, program.HasName name → left.SpellsLike right name)
include alike

theorem agreesAt_of_spelling {ref : NodeRef} {name : SourceName}
    (isName : program.tree.name? ref = some name) :
    Setting.AgreesAt { program, target := left } { program, target := right } ref name where
  symbols := rfl
  bound := rfl
  leftName := isName
  rightName := isName
  verdict := rfl
  report := rfl
  spelling := by
    obtain ⟨node, held, named⟩ := Option.bind_eq_some_iff.mp isName
    exact alike _ (.identifier (Tree.mem_nodes_of_node? held) named)
  symbolSpelling _ isSymbol := alike _ (.symbol isSymbol)

/-- Walks for two targets that spell all names alike do the same. -/
theorem visit_eq_of_spelling (levels : Nat) (ref : NodeRef) (walk : Walk) :
    Walk.visit { program, target := left } levels ref walk =
      Walk.visit { program, target := right } levels ref walk := by
  refine Walk.visit_congr walk rfl fun stops found stop member => ?_
  have named := isNamed_of_mem_itinerary found stop member
  cases event : stop.event with
  | declared ref name | used ref name =>
      rw [event] at named
      exact agreesAt_of_spelling alike named
  | opened kind ref | closed =>
      trivial

theorem lowerFile_eq_of_spelling (root : NodeRef) :
    Setting.lowerFile { program, target := left } root =
      Setting.lowerFile { program, target := right } root := by
  simp only [Setting.lowerFile, visit_eq_of_spelling alike]

end

/-! ## Programs for two targets -/

/-- A program is lowered to the same for any two targets, or cannot be lowered for the same reason,
if neither is the JIT dialect or if all names are ASCII. -/
theorem lower_eq_of_targets (program : Program) (left right : Options) :
    (left.target ≠ .luaJit → right.target ≠ .luaJit →
        program.lower left = program.lower right) ∧
      (program.IsAscii → program.lower left = program.lower right) := by
  constructor
  · intro leftPlain rightPlain
    exact lowerFile_eq_of_spelling (fun _ _ => .of_ne_luaJit leftPlain rightPlain) program.root
  · intro ascii
    exact lowerFile_eq_of_spelling (fun name isName => .of_ascii (ascii name isName)) program.root

end Program

/-! ## A file with one name -/

def Program.oneName (text : String) : Program :=
  let (name, program) := Program.addIdentifier { fileName := "main.ts" } text 0
  (program.addSourceFile [name]).2

def LoweredUnit.oneName (text output : String) : LoweredUnit where
  names := #[
    { source := .node 0
      lowered := .expression (.ident
        { text := output, sourceName := some text, source := some (.node 0) }) }]
  diagnostics := #[]
  scopes := #[{ kind := .file, id := 1, node := .node 1, mentions := [] }]

theorem Program.isAscii_oneName_hyphen : (Program.oneName "a-b").IsAscii := by
  intro name isName
  cases isName with
  | @identifier node name isNode named =>
      have names :
          ∀ node ∈ (Program.oneName "a-b").tree.nodes,
            node.shape.name?.all (fun name => name.text == "a-b") = true := by
        decide +kernel
      have isHyphen := names node isNode
      rw [named, Option.all_some, beq_iff_eq] at isHyphen
      have ascii : "a-b".toList.all (fun c => decide (c.toNat < 128)) = true := by decide
      rw [isHyphen]
      exact fun c member => of_decide_eq_true (List.all_eq_true.mp ascii c member)
  | symbol isSymbol =>
      exact absurd isSymbol (Array.not_mem_empty _)

/-- The JIT dialect keeps an umlaut that other targets escape, but all targets escape a hyphen. -/
theorem Program.lower_eq_of_targets_oneName :
    (Program.oneName "\u00e4").lower { target := .lua50 } =
        .ok (.oneName "\u00e4" "_____E4") ∧
      (Program.oneName "\u00e4").lower { target := .luau } =
        .ok (.oneName "\u00e4" "_____E4") ∧
      (Program.oneName "\u00e4").lower { target := .luaJit } =
        .ok (.oneName "\u00e4" "\u00e4") ∧
      (Program.oneName "a-b").IsAscii ∧
      (Program.oneName "a-b").lower { target := .lua50 } = .ok (.oneName "a-b" "____a_2Db") ∧
      (Program.oneName "a-b").lower { target := .luaJit } = .ok (.oneName "a-b" "____a_2Db") := by
  have umlaut :
      (Program.oneName "\u00e4").lower { target := .lua50 } =
        .ok (.oneName "\u00e4" "_____E4") := by
    decide +kernel
  have hyphen :
      (Program.oneName "a-b").lower { target := .lua50 } = .ok (.oneName "a-b" "____a_2Db") := by
    decide +kernel
  have sameUmlaut :=
    (Program.lower_eq_of_targets (.oneName "\u00e4") { target := .lua50 } { target := .luau }).1
      (by decide) (by decide)
  have sameHyphen :=
    (Program.lower_eq_of_targets (.oneName "a-b") { target := .lua50 } { target := .luaJit }).2
      Program.isAscii_oneName_hyphen
  exact ⟨umlaut, sameUmlaut.symm.trans umlaut, by decide +kernel,
    Program.isAscii_oneName_hyphen, hyphen, sameHyphen.symm.trans hyphen⟩

end NameLowering
