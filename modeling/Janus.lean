import Janus.Machinery.Rounds
import Janus.Machinery.Paging
import Janus.Permissions.Agreement
import Janus.Graphql.Memo
import Janus.Auth.Carrying
import Janus.Auth.Restarting
import Janus.Auth.OneTime
import Janus.Auth.Factor
import Janus.Auth.SignIn
import Janus.Auth.FirstProof
import Janus.Auth.Redeem
import Janus.Auth.Flows
import Janus.Auth.Phases
import Janus.Auth.Protocol
import Janus.Webhooks.Queue
import Janus.Webhooks.Leases
import Janus.Webhooks.Attempts
import Janus.Webhooks.Pump
import Janus.Auth.Issue
import Janus.Auth.Latest
import Janus.Auth.StepUp
import Janus.Auth.Guesses
import Janus.Auth.Enrolment
import Janus.Auth.FactorWrites
import Janus.Auth.FactorHistory
import Janus.Auth.AppCodes
import Janus.Auth.Avatar
import Janus.Auth.RecoveryCodes
import Janus.Js.Date
import Janus.Js.Json
import Janus.Js.Utf8
import Janus.Webhooks.Signature
import Janus.Webhooks.Verified
import Janus.Webhooks.Closing
import Janus.Webhooks.Accounts
import Janus.Webhooks.Outcomes
import Janus.Auth.ChangeEmail
import Janus.Auth.Moving
import Janus.Auth.Moved
import Janus.Auth.Replacing
import Janus.Auth.Replaced
import Janus.Auth.UserIndex
import Janus.Permissions.Notation
import Janus.Permissions.Memory
import Janus.Permissions.Replace
import Janus.Machinery.Search
import Janus.Permissions.Accepted
import Janus.Permissions.Fields
import Janus.Permissions.Ends
import Janus.Auth.Sessions
import Janus.Machinery.Traces
import Janus.Graphql.Path
import Janus.Graphql.Directives
import Janus.Graphql.Guard
import Janus.Graphql.Closed
import Janus.Redis.SignedOut
import Janus.Ids.Mint
import Janus.Auth.Limit
import Janus.Stores.Records
import Janus.Permissions.Rules
import Janus.Auth.Deletion
import Janus.Auth.Deleted
import Janus.Auth.Creation
import Janus.Auth.Created
import Janus.Permissions.Exactly
import Janus.Permissions.Holders
import Janus.Permissions.Depth
import Janus.Permissions.Parse
import Janus.Machinery.Bits
import Janus.Auth.Base32
import Janus.Permissions.Define
import Janus.Permissions.Conditions
import Janus.Graphql.Reached
import Janus.Machinery.Heights
import Janus.Auth.Probing
import Janus.Auth.FindMany
import Janus.Machinery.Slices
import Janus.Js.Base64
import Janus.Auth.Sealing
import Janus.Auth.TypedCodes
import Janus.Auth.Devices
import Janus.Auth.KnownDevices
import Janus.Auth.SignIns
import Janus.Redis.Stores
import Janus.Permissions.Engine
