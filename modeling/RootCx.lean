import RootCx.Authority.ActAs
import RootCx.Authority.Execution
import RootCx.Authority.SqlMatcher
import RootCx.Lib.Worklist
import RootCx.Authority.Roles
import RootCx.Authority.Cycles
import RootCx.Postgres.Lexer
import RootCx.Postgres.Pieces
import RootCx.Rules.Ast
import RootCx.Rules.Emit
import RootCx.Rules.Reading
import RootCx.Rules.ParserComplete
import RootCx.Enforcement.ValidateSql
import RootCx.Enforcement.BindTyped
import RootCx.Lib.Runs
import RootCx.Enforcement.Transaction
import RootCx.Crud.Faithful
import RootCx.Rules.Tags
import RootCx.Manifest.Validate
import RootCx.Rules.Columns
import RootCx.Schema.Create
import RootCx.Schema.Rows
import RootCx.RowAccess.Policies
import RootCx.RowAccess.Sharing
import RootCx.Crud.Sensitive
import RootCx.Worker.Invocations
import RootCx.Worker.JobResults
import RootCx.Worker.Transactions
import RootCx.Worker.Approved
import RootCx.Worker.Panics
import RootCx.Worker.Callers
import RootCx.Worker.Rates
import RootCx.Worker.Crashes
import RootCx.RowAccess.Shares
import RootCx.Workflow.Crashes
import RootCx.Scheduler.Deliveries
import RootCx.Crons.Overlap
import RootCx.Crons.Mirror
import RootCx.Manager.Pool
import RootCx.Manager.Invalidation
import RootCx.Workflow.Streaming
import RootCx.Workflow.Coverage
import RootCx.CrossApp.Grants
import RootCx.CrossApp.Lifecycle
import RootCx.CrossApp.Commit
import RootCx.CrossApp.Endings
import RootCx.PlatformStorage.Ancestors
import RootCx.Delegation.Declared
import RootCx.Integrations.Resolution
import RootCx.Oidc.Interleaving
import RootCx.MagicLink.Containment
import RootCx.Channels.Admission
import RootCx.Channels.Authority
import RootCx.Workflow.Ports
import RootCx.Workflow.Templates
import RootCx.ApprovedActions.Effects
import RootCx.ApprovedActions.Seals
import RootCx.Tools.HttpRequest
import RootCx.PlatformStorage.Renames
import RootCx.Crud.Federated
import RootCx.Crud.Linked
import RootCx.Rules.Operators
import RootCx.Rules.Sensitive
import RootCx.Agents.Supervision
import RootCx.Deploy.Frontends
import RootCx.Deploy.Backends
import RootCx.Reconcile.Refusals
import RootCx.Crud.Placeholders
import RootCx.Crud.BulkInsert
import RootCx.Rules.IndexNames
import RootCx.Rules.Pattern
import RootCx.Rules.ParserSafe
import RootCx.Rules.Declared
