import AuthCore.Interleave.Program
import AuthCore.Interleave.Machine
import AuthCore.Interleave.Rely
import AuthCore.Interleave.Soundness
import AuthCore.Interleave.Unhindered
import AuthCore.Interleave.Ledger
import AuthCore.Interleave.Solo
import AuthCore.Relational.Table
import AuthCore.Model.Schema
import AuthCore.Model.Changes
import AuthCore.Model.Store
import AuthCore.Model.Events
import AuthCore.Model.Commands
import AuthCore.Model.SessionRepository
import AuthCore.Model.SessionControl
import AuthCore.Model.WorkspaceRepository
import AuthCore.Model.Account
import AuthCore.Model.LoginControl
import AuthCore.Model.MFARepository
import AuthCore.Model.MFAControl
import AuthCore.Model.Service
import AuthCore.History.Effects
import AuthCore.History.Guards
import AuthCore.History.Sessions
import AuthCore.History.Workspaces
import AuthCore.History.Accounts
import AuthCore.History.Logins
import AuthCore.History.Factors
import AuthCore.History.Refinement
import AuthCore.History.Ordered
import AuthCore.Sessions.Families
import AuthCore.History.Frames
import AuthCore.Sessions.Commits
import AuthCore.Sessions.Invariant
import AuthCore.Model.Sample
import AuthCore.Sessions.Cap
import AuthCore.Sessions.Access
import AuthCore.Sessions.LiveToken
import AuthCore.Sessions.Theft
import AuthCore.Sessions.Idle
import AuthCore.Sessions.Cutoff
import AuthCore.Gateway.Verifiers
import AuthCore.Gateway.Agreement
import AuthCore.Gateway.PublicKeys
import AuthCore.Accounts.Workflows
import AuthCore.Accounts.Standing
import AuthCore.Accounts.StateMachine
import AuthCore.Accounts.GovernedReset
import AuthCore.Erasure.Exports
import AuthCore.Erasure.Credentials
import AuthCore.Accounts.TwoRuns
import AuthCore.Accounts.FailedLogins
import AuthCore.Accounts.PublicRequests
import AuthCore.Accounts.PasswordHistory
import AuthCore.Accounts.VerifiedPassword
import AuthCore.Accounts.Factors
import AuthCore.Accounts.StrongFactors
import AuthCore.Accounts.Assurance
import AuthCore.Accounts.Enrolments
import AuthCore.Accounts.Methods
import AuthCore.Accounts.ResetLinks
import AuthCore.Accounts.Rehashes
import AuthCore.Accounts.LiveTokens
import AuthCore.Accounts.ContactProofs
import AuthCore.Accounts.Devices
import AuthCore.Sessions.Suspension
import AuthCore.Sessions.DeadSessions
import AuthCore.Codes.OneTime
import AuthCore.Codes.Authenticators
import AuthCore.Codes.BackupCodes
import AuthCore.Codes.ChallengeRequests
import AuthCore.Codes.BoundFactor
import AuthCore.Codes.FailedChecks
import AuthCore.Codes.FactorGuesses
import AuthCore.Codes.PasswordGuesses
import AuthCore.Codes.UsableMethods
import AuthCore.Codes.SecretEnvelope
import AuthCore.Audit.Redaction
import AuthCore.Workspaces.Owners
import AuthCore.Workspaces.Listing
import AuthCore.Erasure.Contacts
import AuthCore.Accounts.StaffActions
import AuthCore.Accounts.StaleRequests
import AuthCore.Audit.Pages
import AuthCore.Audit.CursorErrors
import AuthCore.Gateway.KeyCache
import AuthCore.KeyValue.Server
import AuthCore.KeyValue.SecurityStore
import AuthCore.KeyValue.Names
import AuthCore.KeyValue.StoreRefinement
import AuthCore.Erasure.Requests
import AuthCore.Referrals.Provenance
import AuthCore.Erasure.Downloads
