import NameLowering.Proofs.References.Numbering
import NameLowering.References.Scopes

/-!
# The record of a scope

A scope holds its mentions in one list. Listed symbol by symbol they make a record that could as
well have been kept from the start, by noting each mention under its symbol when it is made.
-/

namespace NameLowering

namespace Scope

variable {scope : Scope}

theorem map_fst_referencedSymbols (scope : Scope) :
    scope.referencedSymbols.map Prod.fst = (scope.mentions.map Mention.symbol).eraseDups := by
  rw [referencedSymbols, List.map_map]
  exact List.map_id' _

theorem mem_referencedSymbols_iff
    (scope : Scope) (symbol : SymbolNumber) (nodes : List NodeRef) :
    (symbol, nodes) ∈ scope.referencedSymbols ↔
      symbol ∈ scope.mentions.map Mention.symbol ∧
        nodes = (scope.mentions.filter (·.symbol == symbol)).map Mention.node := by
  rw [referencedSymbols, List.mem_map]
  constructor
  · rintro ⟨other, member, same⟩
    obtain ⟨rfl, rfl⟩ := Prod.mk.inj same
    exact ⟨List.mem_eraseDups.mp member, rfl⟩
  · rintro ⟨member, rfl⟩
    exact ⟨symbol, List.mem_eraseDups.mpr member, rfl⟩

end Scope

namespace Mention

/-- Notes a mention in a record: after the earlier ones of its symbol, or as the first of a symbol
after all the others. -/
def noteIn (mention : Mention) :
    List (SymbolNumber × List NodeRef) → List (SymbolNumber × List NodeRef)
  | [] => [(mention.symbol, [mention.node])]
  | (symbol, nodes) :: rest =>
    if symbol = mention.symbol then (symbol, nodes ++ [mention.node]) :: rest
    else (symbol, nodes) :: mention.noteIn rest

/-- The record of mentions that are noted one after the other. -/
def record (mentions : List Mention) : List (SymbolNumber × List NodeRef) :=
  mentions.foldl (fun noted mention => mention.noteIn noted) []

variable {mention : Mention} {symbols : List SymbolNumber}
  {before after : SymbolNumber → List NodeRef}

theorem noteIn_map_of_notMem (new : mention.symbol ∉ symbols)
    (same : ∀ symbol ≠ mention.symbol, after symbol = before symbol)
    (first : after mention.symbol = [mention.node]) :
    mention.noteIn (symbols.map fun symbol => (symbol, before symbol)) =
      (symbols ++ [mention.symbol]).map fun symbol => (symbol, after symbol) := by
  induction symbols with
  | nil =>
      rw [List.map_nil, List.nil_append, List.map_singleton, first]
      rfl
  | cons symbol rest inductionHypothesis =>
      rw [List.mem_cons, not_or] at new
      have different : symbol ≠ mention.symbol := Ne.symm new.1
      rw [List.map_cons, noteIn, if_neg different, inductionHypothesis new.2, List.cons_append,
        List.map_cons, same symbol different]

theorem noteIn_map_of_mem (known : mention.symbol ∈ symbols) (distinct : symbols.Nodup)
    (same : ∀ symbol ≠ mention.symbol, after symbol = before symbol)
    (grown : after mention.symbol = before mention.symbol ++ [mention.node]) :
    mention.noteIn (symbols.map fun symbol => (symbol, before symbol)) =
      symbols.map fun symbol => (symbol, after symbol) := by
  induction symbols with
  | nil =>
      contradiction
  | cons symbol rest inductionHypothesis =>
      obtain ⟨notInRest, restDistinct⟩ := List.nodup_cons.mp distinct
      by_cases isSymbol : symbol = mention.symbol
      · subst isSymbol
        have restSame : ∀ other ∈ rest, (other, before other) = (other, after other) := by
          intro other member
          have different : other ≠ mention.symbol := fun isSymbol => notInRest (isSymbol ▸ member)
          rw [same other different]
        rw [List.map_cons, noteIn, if_pos rfl, List.map_cons, grown, List.map_congr_left restSame]
      · have inRest : mention.symbol ∈ rest := by
          rcases List.mem_cons.mp known with isFirst | member
          · exact absurd isFirst.symm isSymbol
          · exact member
        rw [List.map_cons, noteIn, if_neg isSymbol, inductionHypothesis inRest restDistinct,
          List.map_cons, same symbol isSymbol]

end Mention

/-- What a scope knows of its symbols is the record of its mentions. -/
theorem Scope.referencedSymbols_eq_record (scope : Scope) :
    scope.referencedSymbols = Mention.record scope.mentions := by
  obtain ⟨kind, id, node, mentions⟩ := scope
  induction mentions using List.reverseRecOn with
  | nil =>
      rfl
  | append_singleton earlier last inductionHypothesis =>
      have grown (symbol : SymbolNumber) :
          (Scope.mk kind id node (earlier ++ [last])).references symbol =
            (Scope.mk kind id node earlier).references symbol ++
              if last.symbol = symbol then [last.node] else [] := by
        rw [references, references, List.filter_append, List.map_append]
        by_cases isSymbol : last.symbol = symbol <;> simp [isSymbol]
      have unchanged (symbol : SymbolNumber) (different : symbol ≠ last.symbol) :
          (Scope.mk kind id node (earlier ++ [last])).references symbol =
            (Scope.mk kind id node earlier).references symbol := by
        rw [grown, if_neg (Ne.symm different), List.append_nil]
      rw [Mention.record, List.foldl_append, List.foldl_cons, List.foldl_nil]
      change _ = last.noteIn (Mention.record earlier)
      rw [← inductionHypothesis, referencedSymbols, referencedSymbols, Scope.symbols, Scope.symbols,
        List.map_append, List.map_singleton, eraseDups_append_singleton]
      by_cases known : last.symbol ∈ earlier.map Mention.symbol
      · rw [if_pos known]
        refine (Mention.noteIn_map_of_mem (List.mem_eraseDups.mpr known) (nodup_eraseDups _)
          unchanged ?_).symm
        rw [grown, if_pos rfl]
      · rw [if_neg known]
        refine (Mention.noteIn_map_of_notMem ?_ unchanged ?_).symm
        · exact fun member => known (List.mem_eraseDups.mp member)
        · have none : (Scope.mk kind id node earlier).references last.symbol = [] := by
            rw [references, List.map_eq_nil_iff, List.filter_eq_nil_iff]
            intro mention member isSymbol
            exact known (List.mem_map.mpr ⟨mention, member, by simpa using isSymbol⟩)
          rw [grown, if_pos rfl, none, List.nil_append]

end NameLowering
