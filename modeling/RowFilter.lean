import RowFilter.Main
import RowFilter.Proofs.Checked
import RowFilter.Proofs.Counted
import RowFilter.Proofs.Enclosure
import RowFilter.Proofs.EscapedPatterns
import RowFilter.Proofs.NullTests
import RowFilter.Proofs.OneOrder
import RowFilter.Proofs.Positions
import RowFilter.Proofs.Quotation
import RowFilter.Proofs.Recovery
import RowFilter.Proofs.Regrouped
import RowFilter.Proofs.Renaming
import RowFilter.Proofs.Tiling
import RowFilter.Proofs.Typed
import RowFilter.Proofs.JsonValues
import RowFilter.Proofs.Coerced
import RowFilter.Proofs.JsonRows
import RowFilter.Proofs.KeptRows
import RowFilter.Proofs.Memberships
import RowFilter.Proofs.SameContent
import RowFilter.Proofs.Exchanged
import RowFilter.Proofs.Mirrored
import RowFilter.Proofs.Columns
import RowFilter.Proofs.SortOrders
import RowFilter.Proofs.Rationals
import RowFilter.Proofs.Opposites
import RowFilter.Proofs.Wildcards
import RowFilter.Proofs.Disjunctions
import RowFilter.Proofs.Bits
import RowFilter.Proofs.MemberNames
import RowFilter.Proofs.Fractions
import RowFilter.Proofs.Prefixes
import RowFilter.Proofs.Lookahead
import RowFilter.Proofs.SyntaxErrors
import RowFilter.Proofs.Layouts
import RowFilter.Proofs.ColumnCalls
import RowFilter.Proofs.Groupings
import RowFilter.Proofs.CallForms
import RowFilter.Proofs.PlainNames
import RowFilter.Proofs.FieldSpecs
import RowFilter.Proofs.ExactNumbers
import RowFilter.Proofs.EqualityChains
