import RecordMapper.Schema.Diagnostic
import RecordMapper.Session.Opening
import RecordMapper.Proofs.Compilation
import RecordMapper.Proofs.Searching
import RecordMapper.Proofs.RoundTrips
import RecordMapper.Proofs.NestedTransactions
import RecordMapper.Proofs.CellOrder
import RecordMapper.Proofs.Selecting
import RecordMapper.Proofs.Resolving
import RecordMapper.Proofs.Operands
import RecordMapper.Proofs.Phrases
import RecordMapper.Proofs.Planning
import RecordMapper.Proofs.Counting
import RecordMapper.Proofs.Atomicity
import RecordMapper.Proofs.Migrating
import RecordMapper.Proofs.Remembering
import RecordMapper.Proofs.SubstringTests
import RecordMapper.Proofs.Filtering
import RecordMapper.Proofs.Paging
import RecordMapper.Proofs.Refusals
import RecordMapper.Proofs.InsertedRecords
import RecordMapper.Proofs.Declarations
import RecordMapper.Proofs.Trees
import RecordMapper.Proofs.Floats
import RecordMapper.Proofs.NullComparisons
import RecordMapper.Proofs.LargeWindows
import RecordMapper.Proofs.Deleting
import RecordMapper.Proofs.TickCounts
import RecordMapper.Proofs.Conventions
import RecordMapper.Proofs.UpdatedRecords
import RecordMapper.Proofs.TimeOrder
import RecordMapper.Proofs.DecimalTexts
import RecordMapper.Proofs.Coercing
import RecordMapper.Proofs.MissingValues
import RecordMapper.Proofs.RequiredColumns
import RecordMapper.Proofs.Violations
import RecordMapper.Proofs.Casting
import RecordMapper.Proofs.IndexPlans
import RecordMapper.Proofs.Materializing
import RecordMapper.Proofs.TableSelects
import RecordMapper.Proofs.Streaming
