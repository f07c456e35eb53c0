import Agenda.Main
import Agenda.Query.Step
import Agenda.Proofs.Mutation
import Agenda.Proofs.OwnedLines
import Agenda.Proofs.UniqueIds
import Agenda.Proofs.Rewrite
import Agenda.Proofs.Uses
import Agenda.Proofs.Stable
import Agenda.Proofs.SectionLens
import Agenda.Proofs.Rebuild
import Agenda.Proofs.Store
import Agenda.Proofs.Atomic
import Agenda.Proofs.Columns
import Agenda.Proofs.Hierarchy
import Agenda.Proofs.Headings
import Agenda.Proofs.Grammar
import Agenda.Proofs.Boundary
import Agenda.Proofs.Indentation
import Agenda.Proofs.Removal
import Agenda.Proofs.Update
import Agenda.Proofs.TreeWalk
import Agenda.Proofs.Order
import Agenda.Proofs.Sorting
import Agenda.Proofs.ComputedIds
import Agenda.Proofs.Codec
import Agenda.Proofs.WrittenId
import Agenda.Proofs.Literals
import Agenda.Proofs.Spans
import Agenda.Proofs.QuotedStrings
import Agenda.Proofs.Outcomes
import Agenda.Proofs.Places
import Agenda.Proofs.Caption
import Agenda.Proofs.Comparison
import Agenda.Proofs.Canonical
import Agenda.Proofs.Table
import Agenda.Proofs.Projection
import Agenda.Proofs.LeadingShorthand
import Agenda.Proofs.Pairing
