import SmscGateway.Return.Drain
import SmscGateway.Store.Shutdown
import SmscGateway.Northbound.Binding
import SmscGateway.Client.Pending
import SmscGateway.Client.Origin
import SmscGateway.Client.Payload
import SmscGateway.Submit.Options
import SmscGateway.Return.Grace
import SmscGateway.Restart.Buffered
import SmscGateway.Receipts.Outcome
import SmscGateway.Receipts.RestStatus
import SmscGateway.Submit.Relay
import SmscGateway.Client.Succession
import SmscGateway.Smpp.Receipt
import SmscGateway.Gateway.ShardMap
import SmscGateway.Client.Window
import SmscGateway.Receipts.Reports
import SmscGateway.Northbound.Drain
import SmscGateway.Client.Requests
import SmscGateway.Smpp.Octets
import SmscGateway.Smpp.Walkers
import SmscGateway.Northbound.Refusals
import SmscGateway.Routes.Admin
import SmscGateway.Submit.Rate
import SmscGateway.Auth.Accounts
import SmscGateway.Smpp.SubmitMulti
import SmscGateway.Store.RoundTrip
import SmscGateway.Store.Scan
