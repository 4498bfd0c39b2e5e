import NameLowering.LogFormat
import NameLowering.Program.Build
import NameLowering.Proofs.Diagnostic.Filling
import NameLowering.Proofs.Lowering.ContainerNames
import NameLowering.Proofs.Lowering.ExportSlots
import NameLowering.Proofs.Lowering.Frame
import NameLowering.Proofs.Lowering.Precedence
import NameLowering.Proofs.Lowering.ValidNames
import NameLowering.Proofs.Lua.QuotedReading
import NameLowering.Proofs.Lua.Unambiguous
import NameLowering.Proofs.Names.Mangling
import NameLowering.Proofs.Names.Omission
import NameLowering.Proofs.Names.Search
import NameLowering.Proofs.Options.Sections
import NameLowering.Proofs.References.FirstSight
import NameLowering.Proofs.References.ScopeHistory
import NameLowering.Proofs.Symbols.DeclaringChain
import NameLowering.Proofs.Tree.Climbs
import NameLowering.Proofs.Tree.Hulls
import NameLowering.Proofs.Tree.Parents
import NameLowering.Proofs.Types.Aliases
import NameLowering.Proofs.Types.Branding
import NameLowering.Proofs.Types.Growth
import NameLowering.Proofs.Types.Recognition
import NameLowering.Proofs.Types.Resolution
import NameLowering.Proofs.Walk.Appending
import NameLowering.Proofs.Walk.EmptySlots
import NameLowering.Proofs.Walk.HiddenParts
import NameLowering.Proofs.Walk.MissingNodes
import NameLowering.Proofs.Walk.ScopeContents
import NameLowering.Proofs.Walk.ScopeOrder
import NameLowering.Proofs.Walk.SingleReports
import NameLowering.Proofs.Walk.SourceOrder
import NameLowering.Proofs.Walk.SymbolNumbers
import NameLowering.Proofs.Walk.Targets
